import EyeQ.Node.Equiv.Refine
import EyeQ.Qdisc.Equiv.Order
import EyeQ.Rl.Equiv.Conformance

/-!
# The limiters of a device as token pools

`Rl.path_tokenPool` is about limiters that are there from the start.  On a device they come into
being, get their address when the first packet is sent to their destination, and are used from then
on.  Neither matters to the pool: `step_advances` says that an operation of the device takes the
limiter of a destination through steps of its token pool, and keeps its rate below a bound, if a
rate that `iso_rx` installs is below it.  All limiters that there are are stocked (`step_stocked`),
whenever they were set up.
-/

namespace EyeQ

open Machine Rl

/-- No packet is longer, and so none that is at the head of a queue. -/
def maxSize : ℕ := maxLen + ethHlen

/-! ### One limiter -/

namespace Rl

variable {K D C : Type} [DecidableEq K] [DecidableEq D] [DecidableEq C] [Fintype C]
  {p : Params} {kern : Kernel} {R start stop : ℕ} {r : RlId K D} {s s' s'' : TxState K D C}

/-- The rate of the limiter is at most `R`, and the limiter is metered. -/
structure Governed (kern : Kernel) (R : ℕ) (r : RlId K D) (s : TxState K D C) : Prop where
  rate : (s.rl r).rate ≤ R
  metered : Metered kern r maxSize s

/-- The two limiters differ in their rate and their address at most. -/
structure SamePool (l l' : Rl C) : Prop where
  total : l'.totalTokens = l.totalTokens
  last : l'.lastUpdateTime = l.lastUpdateTime
  queue : l'.queue = l.queue

/-- The limiter goes through steps of its token pool while the clock is between `start` and `stop`,
and keeps to the rate `R`. -/
structure Advances (p : Params) (kern : Kernel) (R start stop : ℕ) (r : RlId K D)
    (s s' : TxState K D C) : Prop where
  reads : s.reads ≤ s'.reads
  governed : Governed kern R r s'
  path : IsPath (TokenPool.Step (terms p R maxSize start stop)) (tokenPool r s) (tokenPool r s')

section

omit [DecidableEq K] [DecidableEq D] [DecidableEq C] [Fintype C]

theorem Advances.trans (h : Advances p kern R start stop r s s')
    (h' : Advances p kern R start stop r s' s'') :
    Advances p kern R start stop r s s'' :=
  ⟨h.reads.trans h'.reads, h'.governed, h.path.trans h'.path⟩

theorem Metered.congr {L : ℕ} (hm : Metered kern r L s) (h : SamePool (s.rl r) (s'.rl r))
    (hreads : s.reads ≤ s'.reads) : Metered kern r L s' := by
  have hq : ∀ c, s'.q r c = s.q r c := fun c => congrFun h.queue c
  refine ⟨?_, fun c => ?_, fun c => ?_⟩
  · show (s'.rl r).lastUpdateTime ≤ _
    rw [h.last]
    exact hm.last.trans (kern.ktime_mono hreads)
  · rw [hq]
    exact hm.first c
  · rw [hq]
    exact hm.tokens c

/-- Nothing happens to the pool. -/
theorem Governed.same (hg : Governed kern R r s) (h : SamePool (s.rl r) (s'.rl r))
    (hrate : (s'.rl r).rate ≤ R) (hreads : s.reads ≤ s'.reads) :
    Advances p kern R start stop r s s' := by
  have hpool : tokenPool r s' = tokenPool r s := by
    unfold tokenPool TxState.pool TxState.q
    rw [h.total, h.last, h.queue]
  refine ⟨hreads, ⟨hrate, hg.metered.congr h hreads⟩, ?_⟩
  rw [hpool]

end

omit [Fintype C] in
/-- Small steps do not raise a rate, except to 2. -/
theorem path_rate (h2 : 2 ≤ R) (hpath : IsPath (Small p kern) s s') (hs : (s.rl r).rate ≤ R) :
    (s'.rl r).rate ≤ R := by
  refine path_invariant (P := fun x : TxState K D C => (x.rl r).rate ≤ R)
    (fun x y hsmall hx => ?_) hpath hs
  rcases (hsmall.turn r).rate.1 with hle | htwo
  · exact (show (y.rl r).rate ≤ (x.rl r).rate from hle).trans hx
  · exact (show (y.rl r).rate = 2 from htwo).trans_le h2

omit [Fintype C] in
/-- A path of small steps. -/
theorem Governed.path (hg : Governed kern R r s) (h2 : 2 ≤ R)
    (hburst : R * p.isoMaxBurstTimeUs < 2 ^ 32) (hpath : IsPath (Small p kern) s s')
    (hstart : start ≤ kern.ktime s.reads) (hstop : kern.ktime s'.reads ≤ stop) :
    Advances p kern R start stop r s s' := by
  have hrate := path_rate h2 hpath hg.rate
  have hreads : s.reads ≤ s'.reads :=
    path_invariant (P := fun x : TxState K D C => s.reads ≤ x.reads)
      (fun _ _ hsmall hx => hx.trans (hsmall.turn r).reads) hpath le_rfl
  obtain ⟨hm, hpool⟩ := path_tokenPool start stop hburst
    (path_bounded hpath hg.rate hrate) hg.metered
    (fun _ pkt _ => pkt.size_le) fun n hn hn' =>
      ⟨hstart.trans (kern.ktime_mono hn), (kern.ktime_mono hn'.le).trans hstop⟩
  exact ⟨hreads, ⟨hrate, hm⟩, hpool⟩

omit [DecidableEq K] [DecidableEq D] [DecidableEq C] [Fintype C] in
/-- A limiter that has just been set up. -/
theorem governed_init {now : ℕ} (hR : p.isoRfairInitial ≤ R) (hnow : now ≤ kern.ktime s.reads)
    (h : SamePool (Rl.init C p now) (s.rl r)) (hrate : (s.rl r).rate = p.isoRfairInitial) :
    Governed kern R r s := by
  have hq : ∀ c, s.q r c = {} := fun c => congrFun h.queue c
  refine ⟨hrate.trans_le hR, ?_, fun c => ?_, fun c => ?_⟩
  · show (s.rl r).lastUpdateTime ≤ _
    rw [h.last]
    exact hnow
  · rw [hq]
    exact Nat.zero_le _
  · rw [hq]
    exact Nat.two_pow_pos 64

omit [DecidableEq K] [DecidableEq D] [DecidableEq C] [Fintype C] in
theorem stocked_init {now : ℕ} (hmin : 15000 ≤ p.isoMinBurstBytes)
    (h : SamePool (Rl.init C p now) (s.rl r)) :
    TokenPool.Stocked (terms p R maxSize start stop) (tokenPool r s) := by
  have hq : ∀ c, s.q r c = {} := fun c => congrFun h.queue c
  refine ⟨?_, fun c => ?_⟩
  · show (s.rl r).totalTokens ≤ _
    rw [h.total]
    exact hmin.trans (le_max_right _ _)
  · show (s.q r c).meter.tokens ≤ _
    rw [hq]
    exact Nat.zero_le _

end Rl

/-! ### Operations of the limiters -/

namespace Qdisc

variable {K D C : Type} [DecidableEq K] [DecidableEq D] [DecidableEq C] [Fintype C]
  {p : Params} {kern : Kernel}

/-- The operations that set no rate. -/
def Op.SetsNoRate : Op K D C → Prop
  | .feedback _ _ _ => False
  | .classRate _ _ => False
  | _ => True

/-- An operation that sets no rate is a path of small steps, and at most an event more. -/
theorem exists_path (p : Params) (kern : Kernel) (s : TxState K D C) {op : Op K D C}
    (hop : op.SetsNoRate) :
    ∃ s', IsPath (Small p kern) s s' ∧ (step p kern s op).rl = s'.rl ∧
    (step p kern s op).reads = s'.reads := by
  cases op with
  | enqueue route c skb =>
    rw [step_enqueue]
    split_ifs
    · refine ⟨(isoTx p kern route skb c s).2, ?_, ?_⟩
      · cases route with
        | none => exact .refl
        | some x =>
          exact .head (Small.enqueue s x.1 x.2 c skb.isoEnableEcn)
            (small_path (isoRlDequeue_path (.dest x.1 x.2) c _))
      · cases (isoTx p kern route skb c s).1 <;> exact ⟨rfl, rfl⟩
    · exact ⟨s, .refl, rfl, rfl⟩
  | dequeue r c => exact ⟨_, small_path (isoRlDequeue_path r c s), rfl, rfl⟩
  | feedback t d rate => exact absurd hop id
  | classRate t rate => exact absurd hop id
  | timeout c =>
    refine ⟨_, ?_, rfl, rfl⟩
    show IsPath (Small p kern) s (isoRlTimeout c s)
    unfold isoRlTimeout
    split_ifs
    · refine .single (Small.inner ?_)
      exact modifyCb_inner s c _ fun _ => rfl
    · exact .refl
  | tasklet c => exact ⟨_, small_path (isoRlXmitTasklet_path c s), rfl, rfl⟩

theorem step_advances {R start stop : ℕ} {r : RlId K D} {s : TxState K D C}
    (hg : Governed kern R r s) (h2 : 2 ≤ R) (hburst : R * p.isoMaxBurstTimeUs < 2 ^ 32)
    {op : Op K D C} (hop : op.SetsNoRate) (hstart : start ≤ kern.ktime s.reads)
    (hstop : kern.ktime (step p kern s op).reads ≤ stop) :
    Advances p kern R start stop r s (step p kern s op) := by
  obtain ⟨s', hpath, hrl, hreads⟩ := exists_path p kern s hop
  have h := hg.path h2 hburst hpath hstart (hreads ▸ hstop)
  have hsame : SamePool (s'.rl r) ((step p kern s op).rl r) := by
    rw [hrl]
    exact ⟨rfl, rfl, rfl⟩
  refine h.trans (h.governed.same hsame ?_ hreads.ge)
  rw [hrl]
  exact h.governed.rate

end Qdisc

/-! ### The limiters of a device -/

namespace Node

variable {C : Type} [DecidableEq C] [Fintype C] {plat : Platform} {p : Params}
  {kern : Kernel} {online : List C} {R start stop T k j : ℕ}
  {sent : List (Qdisc.Sending ℕ ℕ C)} {n n' : Node C}

/-- What becomes of the limiters of the destinations: those that exist keep everything but their
address, and a new one has just been set up. -/
structure Persists (p : Params) (T : ℕ) (x y : Scene C) : Prop where
  subset : x.1 ⊆ y.1
  old : ∀ k j, .dest k j ∈ x.1 → ∃ ip, y.2.rl (.dest k j) = { x.2.rl (.dest k j) with ip := ip }
  new : ∀ k j, .dest k j ∈ y.1 → .dest k j ∉ x.1 →
    ∃ now ≤ T, ∃ ip, y.2.rl (.dest k j) = { Rl.init C p now with ip := ip }

omit [DecidableEq C] [Fintype C] in
theorem Persists.refl (x : Scene C) : Persists p T x x :=
  ⟨fun _ h => h, fun _ _ _ => ⟨_, rfl⟩, fun _ _ h hnot => absurd h hnot⟩

omit [DecidableEq C] [Fintype C] in
theorem Persists.trans {x y z : Scene C} (h : Persists p T x y) (h' : Persists p T y z) :
    Persists p T x z := by
  refine ⟨fun _ hr => h'.subset (h.subset hr), fun k j hr => ?_, fun k j hr hnot => ?_⟩
  · obtain ⟨ip, hip⟩ := h.old k j hr
    obtain ⟨ip', hip'⟩ := h'.old k j (h.subset hr)
    exact ⟨ip', by rw [hip', hip]⟩
  · by_cases hy : .dest k j ∈ y.1
    · obtain ⟨now, hnow, ip, hip⟩ := h.new k j hy hnot
      obtain ⟨ip', hip'⟩ := h'.old k j hy
      exact ⟨now, hnow, ip', by rw [hip', hip]⟩
    · exact h'.new k j hr hy

theorem Small.persists {x y : Scene C} (h : Small p kern T x y) : Persists p T x y := by
  cases h with
  | @classRate A s k rate hk =>
    refine ⟨fun _ hr => hr, fun k' j' _ => ⟨(s.rl (.dest k' j')).ip, ?_⟩,
      fun _ _ hr hnot => absurd hr hnot⟩
    show (s.modifyRl (.txc k) fun l => { l with rate := u32 rate }).rl (.dest k' j') =
      s.rl (.dest k' j')
    rw [TxState.rl_modifyRl_of_ne]
    simp
  | setUp fresh hAB hB hold hnew =>
    refine ⟨hAB, fun k' j' hr => ⟨_, setUp_of_none (hold _ hr) _⟩, fun k' j' hr hnot => ?_⟩
    obtain ⟨now, hnow, hfresh⟩ := hnew _ hr hnot
    exact ⟨now, hnow, _, setUp_of_some hfresh _⟩
  | address m hm =>
    refine ⟨fun _ hr => hr, fun k' j' _ => ?_, fun _ _ hr hnot => absurd hr hnot⟩
    obtain ⟨g, hg⟩ := hm (.dest k' j')
    exact ⟨_, hg _⟩

theorem Reached.persists {ctx ctx' : TxContext C} (h : Reached plat p kern T ctx ctx')
    (s : TxState ℕ ℕ C) :
    Persists p T (scene ctx s) (scene ctx' s) :=
  path_invariant (P := Persists p T (scene ctx s)) (fun _ _ hsmall hx => hx.trans hsmall.persists)
    (h.path s) (.refl _)

/-! ### What keeps every limiter -/

/-- Every limiter of a destination is at a rate of at most `R`, metered, and stocked. -/
def Stocked (p : Params) (kern : Kernel) (R : ℕ) (n : Node C) : Prop :=
  ∀ k j, Live n.tick.ctx (.dest k j) → Governed kern R (.dest k j) n.view ∧
    TokenPool.Stocked (terms p R maxSize 0 0) (tokenPool (.dest k j) n.view)

omit [DecidableEq C] [Fintype C] in
/-- Limiters that advance stay stocked. -/
theorem Stocked.advance (h : Stocked p kern R n)
    (hlive : ∀ k j, Live n'.tick.ctx (.dest k j) → Live n.tick.ctx (.dest k j))
    (hadv : ∀ k j, Live n.tick.ctx (.dest k j) →
      Advances p kern R start stop (.dest k j) n.view n'.view) :
    Stocked p kern R n' := by
  intro k j hr
  obtain ⟨-, hstocked⟩ := h k j (hlive k j hr)
  have hstep := hadv k j (hlive k j hr)
  -- the times are of no concern to what there can be in a pool
  have hstocked' : TokenPool.Stocked (terms p R maxSize start stop)
      (tokenPool (.dest k j) n'.view) :=
    TokenPool.stocked_path hstep.path hstocked
  exact ⟨hstep.governed, hstocked'⟩

section Reached

variable {ctx : TxContext C}

/-- A limiter that exists is not changed with the configuration. -/
theorem Reached.advances (h : Reached plat p kern T n.tick.ctx ctx)
    (hlive : Live n.tick.ctx (.dest k j)) (hg : Governed kern R (.dest k j) n.view) :
    Live ctx (.dest k j) ∧ Advances p kern R start stop (.dest k j) n.view (n.setCtx ctx).view := by
  have hp := h.persists n.view
  obtain ⟨ip, hip⟩ := hp.old k j hlive
  have hrl : (n.setCtx ctx).view.rl (.dest k j) = { n.view.rl (.dest k j) with ip := ip } := hip
  have hlive' : .dest k j ∈ (scene ctx n.view).1 := hp.subset hlive
  refine ⟨hlive', hg.same ?_ ?_ le_rfl⟩
  · rw [hrl]
    exact ⟨rfl, rfl, rfl⟩
  · rw [hrl]
    exact hg.rate

/-- New limiters are stocked. -/
theorem Reached.stocked (h : Reached plat p kern T n.tick.ctx ctx) (hT : T ≤ kern.ktime n.reads)
    (hR : p.isoRfairInitial ≤ R) (hmin : 15000 ≤ p.isoMinBurstBytes) (hs : Stocked p kern R n) :
    Stocked p kern R (n.setCtx ctx) := by
  intro k j hr
  by_cases hlive : Live n.tick.ctx (.dest k j)
  · obtain ⟨hg, hstocked⟩ := hs k j hlive
    have hadv : Advances p kern R 0 0 (.dest k j) n.view (n.setCtx ctx).view :=
      (h.advances hlive hg).2
    exact ⟨hadv.governed, TokenPool.stocked_path hadv.path hstocked⟩
  · obtain ⟨now, hnow, ip, hip⟩ := (h.persists n.view).new k j hr hlive
    have hrl : (n.setCtx ctx).view.rl (.dest k j) = { Rl.init C p now with ip := ip } := hip
    have hsame : SamePool (Rl.init C p now) ((n.setCtx ctx).view.rl (.dest k j)) := by
      rw [hrl]
      exact ⟨rfl, rfl, rfl⟩
    refine ⟨governed_init hR (hnow.trans hT) hsame ?_, stocked_init hmin hsame⟩
    rw [hrl]
    rfl

end Reached

/-! ### What happens to a device -/

/-- The time at which an operation sets limiters up. -/
def Op.time : Op C → ℕ
  | .command op _ => op.time
  | .prealloc _ now _ => now
  | _ => 0

/-- The state that a received packet finds or makes, and the class with it. -/
def received (plat : Platform) (p : Params) (env : RxEnv C) (skb : Skb) (txc : TxClass C) :
    Ptr × TxClass C :=
  TxClass.isoStateGet plat env.stateNow txc skb true (isoIsFeedbackMarked p skb) env.writelock

/-- The limiter at `j` of the class at `k` is the one that a received packet carries a rate for. -/
def Feeds (plat : Platform) (p : Params) (ctx : TxContext C) (k j : ℕ) : Op C → Prop
  | .rx env skb => ctx.isoTxcFind plat (isoRxClassify skb) = some k ∧
      ∃ i, (received plat p env skb (ctx.txcs k)).1 = .obj i ∧
        ((received plat p env skb (ctx.txcs k)).2.state i).rl = .obj j
  | _ => False

/-- The rate that a received packet carries. -/
def Op.carried (p : Params) : Op C → ℕ
  | .rx _ skb => skbHasFeedback p skb
  | _ => 0

section

omit [DecidableEq C] [Fintype C]

/-- Using a state installs the rate that the packet carries, or does nothing. -/
theorem installRate_of_useState {env : RxEnv C} {skb skb' : Skb}
    {txc txc' : TxClass C} {state : Ptr} {verdict : IsoVerdict}
    (huse : Host.useState p env skb txc state = .ok (verdict, skb', txc')) :
    txc' = txc ∨ ∃ i j, state = .obj i ∧ (txc.state i).rl = .obj j ∧
      Host.installRate env.rateNow (skbHasFeedback p skb) i txc = .ok txc' := by
  cases state with
  | null =>
    cases huse
    exact Or.inl rfl
  | listHead => cases huse
  | obj i =>
    obtain ⟨txc'', hinstall, huse⟩ := bind_eq_ok huse
    cases huse
    unfold Host.installIfDue at hinstall
    dsimp only at hinstall
    split_ifs at hinstall
    · rcases hrl : (txc.state i).rl with _ | j | _
      · rw [Host.installRate, hrl] at hinstall
        cases hinstall
      · exact Or.inr ⟨i, j, rfl, hrl, hinstall⟩
      · rw [Host.installRate, hrl] at hinstall
        cases hinstall
    · cases hinstall
      exact Or.inl rfl

/-- Using a state writes the rate of its limiter, or nothing. -/
theorem useState_rls {env : RxEnv C} {skb skb' : Skb} {txc txc' : TxClass C} {state : Ptr}
    {verdict : IsoVerdict} (huse : Host.useState p env skb txc state = .ok (verdict, skb', txc'))
    (j : ℕ) :
    txc'.brk = txc.brk ∧ SamePool (txc.rls j) (txc'.rls j) ∧
      ((txc'.rls j).rate = (txc.rls j).rate ∨
        (∃ i, state = .obj i ∧ (txc.state i).rl = .obj j) ∧
        (txc'.rls j).rate = skbHasFeedback p skb) := by
  rcases installRate_of_useState huse with rfl | ⟨i, j', hstate, hrl, hinstall⟩
  · exact ⟨rfl, ⟨rfl, rfl, rfl⟩, Or.inl rfl⟩
  · rw [Host.installRate, hrl] at hinstall
    obtain rfl := Except.ok.inj hinstall
    refine ⟨rfl, ?_⟩
    dsimp only
    by_cases hj : j = j'
    · subst hj
      rw [Function.update_self]
      exact ⟨⟨rfl, rfl, rfl⟩, Or.inr ⟨⟨i, hstate, hrl⟩, rfl⟩⟩
    · rw [Function.update_of_ne hj]
      exact ⟨⟨rfl, rfl, rfl⟩, Or.inl rfl⟩

/-- Using a state leaves the limiters of the states alone. -/
theorem useState_kept {env : RxEnv C} {skb skb' : Skb} {txc txc' : TxClass C} {state : Ptr}
    {verdict : IsoVerdict} (huse : Host.useState p env skb txc state = .ok (verdict, skb', txc')) :
    txc.Kept txc' := by
  rcases installRate_of_useState huse with rfl | ⟨i, j, -, hrl, hinstall⟩
  · exact .refl txc'
  · obtain ⟨txc'', hok, hsame, -⟩ := Host.installRate_eq hrl env.rateNow (skbHasFeedback p skb)
    rw [Except.ok.inj (hok.symm.trans hinstall)] at hsame
    have hklass : txc'.klass = txc.klass := by
      rw [Host.installRate, hrl] at hinstall
      obtain rfl := Except.ok.inj hinstall
      rfl
    exact TxClass.SameClass.kept ⟨hklass, hsame⟩

end

/-- An operation changes the configuration first, and then the limiters. -/
structure Stages (plat : Platform) (p : Params) (kern : Kernel) (R start stop : ℕ)
    (op : Op C) (n n' : Node C) (ctx : TxContext C) : Prop where
  reached : Reached plat p kern op.time n.tick.ctx ctx
  live : ∀ k j, Live n'.tick.ctx (.dest k j) ↔ Live ctx (.dest k j)
  routes : ∀ skb k j, Routes plat ctx skb k j → Routes plat n'.tick.ctx skb k j
  advances : ∀ k j, Governed kern R (.dest k j) (n.setCtx ctx).view →
    (Feeds plat p n.tick.ctx k j op → op.carried p ≤ R) →
      Advances p kern R start stop (.dest k j) (n.setCtx ctx).view n'.view

/-- The limiters stay as the change of the configuration has left them. -/
theorem stages_setCtx {op : Op C} {ctx : TxContext C}
    (h : Reached plat p kern op.time n.tick.ctx ctx) :
    Stages plat p kern R start stop op n (n.setCtx ctx) ctx :=
  ⟨h, fun _ _ => Iff.rfl, fun _ _ _ hroutes => hroutes,
    fun _ _ hg _ => hg.same ⟨rfl, rfl, rfl⟩ hg.rate le_rfl⟩

/-- The configuration changes with `iso_txc_tick` at most, and the limiters make an operation. -/
theorem stages_put {op : Op C} (tick : TxTick C) (op' : Qdisc.Op ℕ ℕ C)
    (h : Reached plat p kern op.time n.tick.ctx tick.ctx) (hop : op'.SetsNoRate) (h2 : 2 ≤ R)
    (hburst : R * p.isoMaxBurstTimeUs < 2 ^ 32) (hstart : start ≤ kern.ktime n.reads)
    (hstop : kern.ktime (Qdisc.step p kern { n with tick := tick }.view op').reads ≤ stop) :
    Stages plat p kern R start stop op n
      ({ n with tick := tick }.put (Qdisc.step p kern { n with tick := tick }.view op'))
      tick.ctx := by
  refine ⟨h, fun _ _ => Iff.rfl, fun _ _ _ hroutes => ?_, fun k j hg _ => ?_⟩
  · exact hroutes.sameIndex (put_sameIndex p kern { n with tick := tick } op')
  · rw [view_put]
    exact Qdisc.step_advances hg h2 hburst hop hstart hstop

omit [DecidableEq C] [Fintype C] in
/-- What `iso_rx` does to the tx context, for a packet that has a class. -/
theorem exists_of_rx {env : RxEnv C} {skb : Skb} (hstep : n.rx plat p kern env skb = .ok n') {k : ℕ}
    (hfind : n.tick.ctx.isoTxcFind plat (isoRxClassify skb) = some k) :
    ∃ verdict skb' txc', Host.useState p { env with rateNow := kern.ktime n.reads } skb
        (received plat p env skb (n.tick.ctx.txcs k)).2
        (received plat p env skb (n.tick.ctx.txcs k)).1 =
          .ok (verdict, skb', txc') ∧
      n'.tick.ctx = n.tick.ctx.modifyTxc k (fun _ => txc') ∧ n.reads ≤ n'.reads := by
  rw [rx, hfind] at hstep
  obtain ⟨⟨verdict, skb', txc'⟩, huse, hstep⟩ := bind_eq_ok hstep
  cases hstep
  have hreads : ∀ (c : Prop) [Decidable c], n.reads ≤ if c then n.reads + 1 else n.reads := by
    intro c _
    split_ifs
    · exact Nat.le_succ _
    · exact le_rfl
  exact ⟨verdict, skb', txc', huse, rfl, hreads _⟩

theorem rx_stages {env : RxEnv C} {skb : Skb} (hs : Sound plat n.tick.ctx)
    (hstep : n.rx plat p kern env skb = .ok n') :
    ∃ ctx, Stages plat p kern R start stop (.rx env skb) n n' ctx := by
  rcases hfind : n.tick.ctx.isoTxcFind plat (isoRxClassify skb) with _ | k₀
  · rw [rx, hfind] at hstep
    cases hstep
    exact ⟨n.tick.ctx, stages_setCtx (.refl hs)⟩
  · obtain ⟨verdict, skb', txc', huse, hctx, hreads⟩ := exists_of_rx hstep hfind
    have hrls := useState_rls huse
    refine ⟨n.tick.ctx.modifyTxc k₀ fun _ => (received plat p env skb (n.tick.ctx.txcs k₀)).2,
      .isoStateGet hs k₀ env.stateNow skb true (isoIsFeedbackMarked p skb) env.writelock,
      fun k j => ?_,
      fun _ k j hroutes => ?_, fun k j hg hfeeds => ?_⟩
    · rw [hctx]
      show k < n.tick.ctx.brk ∧ j < (Function.update n.tick.ctx.txcs k₀ txc' k).brk ↔
        k < n.tick.ctx.brk ∧ j < (Function.update n.tick.ctx.txcs k₀ _ k).brk
      by_cases hk : k = k₀
      · rw [hk, Function.update_self, Function.update_self, (hrls j).1]
      · rw [Function.update_of_ne hk, Function.update_of_ne hk]
    · have hkept : ((n.tick.ctx.modifyTxc k₀ fun _ =>
          (received plat p env skb (n.tick.ctx.txcs k₀)).2).txcs k₀).Kept
          txc' := by
        show (Function.update n.tick.ctx.txcs k₀ _ k₀).Kept txc'
        rw [Function.update_self]
        exact useState_kept huse
      have hafter := hroutes.modifyTxc (f := fun _ => txc') hkept
      rw [TxContext.modifyTxc_modifyTxc] at hafter
      rw [hctx]
      exact hafter
    · have hrate := hg.rate
      -- the limiter before the rate is written, and after it
      have hold : (n.setCtx (n.tick.ctx.modifyTxc k₀ fun _ =>
          (received plat p env skb (n.tick.ctx.txcs k₀)).2)).view.rl (.dest k j) =
          (Function.update n.tick.ctx.txcs k₀
            (received plat p env skb (n.tick.ctx.txcs k₀)).2 k).rls j :=
        rfl
      have hnew : n'.view.rl (.dest k j) = (Function.update n.tick.ctx.txcs k₀ txc' k).rls j := by
        show (n'.tick.ctx.txcs k).rls j = _
        rw [hctx]
        rfl
      rw [hold] at hrate
      by_cases hk : k = k₀
      · subst hk
        rw [Function.update_self] at hold hnew hrate
        obtain ⟨-, hsame, hcases⟩ := hrls j
        refine hg.same (hold ▸ hnew ▸ hsame) ?_ hreads
        rw [hnew]
        rcases hcases with heq | ⟨hstate, heq⟩
        · rw [heq]
          exact hrate
        · rw [heq]
          exact hfeeds ⟨hfind, hstate⟩
      · rw [Function.update_of_ne hk] at hold hnew hrate
        refine hg.same ?_ (hnew ▸ hrate) hreads
        rw [hold, hnew]
        exact ⟨rfl, rfl, rfl⟩

theorem step_stages (hp : p.isoMaxTxRate < 2 ^ 32) (h2 : 2 ≤ R)
    (hburst : R * p.isoMaxBurstTimeUs < 2 ^ 32) {op : Op C} (hs : Sound plat n.tick.ctx)
    (hstep : step plat p kern online n op = .ok n') (hstart : start ≤ kern.ktime n.reads)
    (hstop : kern.ktime n'.reads ≤ stop) : ∃ ctx, Stages plat p kern R start stop op n n' ctx := by
  cases op with
  | enqueue c skb now lock =>
    replace hstep : n.enqueue plat p kern online c skb now lock = .ok n' := hstep
    rw [enqueue] at hstep
    split_ifs at hstep
    · obtain ⟨tick, htick, hstep⟩ := bind_eq_ok hstep
      obtain ⟨route, hroute, hstep⟩ := bind_eq_ok hstep
      cases hstep
      exact ⟨_, stages_put tick (.enqueue route c skb)
        ((isoTxcTick_reached hs).of_eq_ok htick) trivial h2 hburst hstart hstop⟩
    · cases hstep
      exact ⟨_, stages_put n.tick (.enqueue none c skb) (.refl hs) trivial h2 hburst hstart hstop⟩
  | rx env skb => exact rx_stages hs hstep
  | command op hkeeps =>
    cases hstep
    exact ⟨_, stages_setCtx (command_reached hs hp hkeeps le_rfl)⟩
  | prealloc k now rounds =>
    cases hstep
    exact ⟨_, stages_setCtx (.isoTxcPrealloc hs k le_rfl rounds)⟩
  | timeout c =>
    cases hstep
    exact ⟨_, stages_put n.tick (.timeout c) (.refl hs) trivial h2 hburst hstart hstop⟩
  | tasklet c =>
    cases hstep
    exact ⟨_, stages_put n.tick (.tasklet c) (.refl hs) trivial h2 hburst hstart hstop⟩

/-- The way of a packet stays. -/
theorem step_routes (hp : p.isoMaxTxRate < 2 ^ 32)
    (hburst : 2 * p.isoMaxBurstTimeUs < 2 ^ 32) {op : Op C} (hs : Sound plat n.tick.ctx)
    (hstep : step plat p kern online n op = .ok n') {skb : Skb}
    (hroutes : Routes plat n.tick.ctx skb k j) : Routes plat n'.tick.ctx skb k j := by
  obtain ⟨ctx, h⟩ := step_stages hp le_rfl hburst hs hstep (Nat.zero_le _) le_rfl
  exact h.routes skb k j (h.reached.routes skb k j hroutes)

/-- An operation takes the limiter of a destination through steps of its token pool, and keeps it to
the rate `R`. -/
theorem step_advances (hp : p.isoMaxTxRate < 2 ^ 32) (h2 : 2 ≤ R)
    (hburst : R * p.isoMaxBurstTimeUs < 2 ^ 32) {op : Op C} (hs : Sound plat n.tick.ctx)
    (hstep : step plat p kern online n op = .ok n') (hlive : Live n.tick.ctx (.dest k j))
    (hg : Governed kern R (.dest k j) n.view) (hfeeds : Feeds plat p n.tick.ctx k j op →
      op.carried p ≤ R) (hstart : start ≤ kern.ktime n.reads)
    (hstop : kern.ktime n'.reads ≤ stop) :
    Live n'.tick.ctx (.dest k j) ∧ Advances p kern R start stop (.dest k j) n.view n'.view := by
  obtain ⟨ctx, h⟩ := step_stages hp h2 hburst hs hstep hstart hstop
  obtain ⟨hlive', hadv⟩ := h.reached.advances hlive hg
  exact ⟨(h.live k j).2 hlive', hadv.trans (h.advances k j hadv.governed hfeeds)⟩

/-- All limiters stay stocked, if the rates that packets can carry are at most `R`. -/
theorem step_stocked (hp : p.isoMaxTxRate < 2 ^ 32) (h2 : 2 ≤ R)
    (hburst : R * p.isoMaxBurstTimeUs < 2 ^ 32) (hR : p.isoRfairInitial ≤ R)
    (hmin : 15000 ≤ p.isoMinBurstBytes) {op : Op C} (hs : Sound plat n.tick.ctx)
    (hstep : step plat p kern online n op = .ok n') (htime : op.time ≤ kern.ktime n.reads)
    (hcarried : op.carried p ≤ R) (h : Stocked p kern R n) : Stocked p kern R n' := by
  obtain ⟨ctx, hstages⟩ := step_stages hp h2 hburst hs hstep (Nat.zero_le _) le_rfl
  have hctx := hstages.reached.stocked htime hR hmin h
  exact hctx.advance (fun k j => (hstages.live k j).1) fun k j hlive =>
    hstages.advances k j (hctx k j hlive).1 fun _ => hcarried

section

omit [DecidableEq C] [Fintype C]

theorem init_stocked (p : Params) (kern : Kernel) (R now : ℕ) :
    Stocked p kern R (init p now : Node C) :=
  fun _ _ hlive => absurd hlive.1 (Nat.not_lt_zero _)

/-! ### Whose packets carry a rate for a limiter -/

theorem klass_of_isoTxcFind {ctx : TxContext C} {klass : UInt32}
    (h : ctx.isoTxcFind plat klass = some k) :
    (ctx.txcs k).klass = klass := by
  have hfound := List.find?_some h
  exact of_decide_eq_true hfound

/-- A limiter belongs to one state only. -/
theorem bucket_eq_of_rl {txc : TxClass C} (h : txc.Pooled plat) {b b' : UInt32} {i i' : ℕ}
    (hi : i ∈ txc.stateBucket b) (hi' : i' ∈ txc.stateBucket b') (hrl : (txc.state i).rl = .obj j)
    (hrl' : (txc.state i').rl = .obj j) : b = b' := by
  obtain ⟨j₁, _, hj₁, -, hip⟩ := h.limited b i hi
  obtain ⟨j₂, _, hj₂, -, hip'⟩ := h.limited b' i' hi'
  obtain rfl : j₁ = j := Ptr.obj.inj (hj₁.symm.trans hrl)
  obtain rfl : j₂ = j₁ := Ptr.obj.inj (hj₂.symm.trans hrl')
  rw [← h.states.chained.home_eq b i hi, ← h.states.chained.home_eq b' i' hi', ← hip, ← hip']

/-- A packet that carries a rate for the limiter of a way comes to its source, from an address on
the hash chain of its destination. -/
theorem Sound.chain_of_feeds {ctx : TxContext C} (h : Sound plat ctx) {skb fb : Skb}
    (hroutes : Routes plat ctx skb k j) {env : RxEnv C}
    (hfeeds : Feeds plat p ctx k j (.rx env fb)) :
    fb.isIp = true ∧ fb.daddr = skb.saddr ∧
      TxClass.stateHash plat (plat.ntohl fb.saddr) =
      TxClass.stateHash plat (plat.ntohl skb.daddr) := by
  obtain ⟨hfind, i, hstate, hrl⟩ := hfeeds
  obtain ⟨i₀, hchain₀, hrl₀⟩ := hroutes.state
  have hi₀ : i₀ ∈ (ctx.txcs k).stateBucket (TxClass.stateHash plat (TxClass.peer plat skb false)) :=
    hchain₀ ▸ List.mem_singleton_self i₀
  unfold received at hstate hrl
  by_cases hip : fb.isIp
  · have hklass := (klass_of_isoTxcFind hfind).symm.trans (klass_of_isoTxcFind hroutes.find)
    rw [isoRxClassify, if_pos hip, isoTxcClassify, if_pos hroutes.isIp] at hklass
    refine ⟨hip, hklass, ?_⟩
    have hgot := (h.pooled k).isoStateGet_got env.stateNow hip true
      (isoIsFeedbackMarked p fb) env.writelock
    generalize TxClass.isoStateGet plat env.stateNow (ctx.txcs k) fb true (isoIsFeedbackMarked p fb)
      env.writelock = got at hgot hstate hrl
    obtain ⟨state, txc⟩ := got
    dsimp only at hgot hstate hrl
    subst hstate
    cases hgot with
    | found _ hchain =>
      exact bucket_eq_of_rl (h.pooled k) (hchain ▸ List.mem_singleton_self i) hi₀ hrl hrl₀
    | taken _ j₁ states limiters hchain hcreate hlock hi hj =>
      -- a new state gets a limiter from the free list, and this one is in use
      obtain ⟨j₂, b, hj₂, hmem, -⟩ := (h.pooled k).limited _ i₀ hi₀
      obtain rfl : j₂ = j := Ptr.obj.inj (hj₂.symm.trans hrl₀)
      have hnew : j₁ = j₂ := by
        have hrl' : (Function.update (ctx.txcs k).state i _ i).rl = .obj j₂ := hrl
        rw [Function.update_self] at hrl'
        exact Ptr.obj.inj hrl'
      exact absurd (hj ▸ hnew ▸ List.mem_cons_self) ((h.pooled k).limiters.apart b j₂ hmem)
  · rw [TxClass.isoStateGet_of_not_isIp _ hip] at hstate
    cases hstate

end

end Node

end EyeQ
