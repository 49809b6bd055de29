import EyeQ.Host.Net
import EyeQ.Rx.Equiv.Context
import EyeQ.Tx.Equiv.Context

/-!
# `iso_rx`: the invariant of a host

`Host.Sound` joins the invariants of the two contexts of a host: the receive context is sound, and
the tables of every class are in order.  It holds in every state that a run of two hosts reaches
(`Net.runFrom_sound`).

For a packet that has a VQ and a class, `isoRx_eq` is what `iso_rx` does if the VQ is ready for the
packet: the fault cannot come from the VQ, and what is left is what happens to the state that
`iso_state_get` returns.  If the VQ is not ready, the packet makes the host fault (`isoRx_fails`).
-/

namespace EyeQ

open Machine

variable {C : Type} {plat : Platform} {p : Params}

/-! ### Using a state -/

namespace TxClass

/-- A state that `iso_state_get` returns is hashed. -/
theorem Got.exists_mem {txc txc' : TxClass C} {now : ℕ} {ip : UInt32} {create trylock : Bool}
    {i : ℕ} (hgot : Got plat now txc ip create trylock (.obj i) txc') :
    ∃ b, i ∈ txc'.stateBucket b := by
  cases hgot with
  | found _ hchain => exact ⟨stateHash plat ip, by simp [hchain]⟩
  | taken => exact ⟨stateHash plat ip, mem_addHead.2 (Or.inl ⟨rfl, rfl⟩)⟩

end TxClass

namespace Host

/-- Installing a rate: it is written to the limiter of the state, and the tables stay as they
are. -/
theorem installRate_eq {txc : TxClass C} {i j : ℕ} (hrl : (txc.state i).rl = .obj j)
    (now rate : ℕ) :
    ∃ txc', installRate now rate i txc = .ok txc' ∧ TxClass.SameTable txc txc' ∧
      (txc'.rls j).rate = rate := by
  rw [installRate, hrl]
  refine ⟨_, rfl, ⟨rfl, rfl, rfl, rfl, rfl, rfl, ?_, ?_, ?_⟩, ?_⟩
  · exact field_update PerDestState.ipKey txc.state rfl
  · exact field_update PerDestState.rl txc.state rfl
  · exact field_update Rl.ip txc.rls rfl
  · simp

/-- What `iso_rx` does with a state. -/
theorem useState_obj {txc : TxClass C} (h : txc.Pooled plat) {b : UInt32} {i : ℕ}
    (hi : i ∈ txc.stateBucket b) (env : RxEnv C) (skb : Skb) :
    ∃ txc', useState p env skb txc (.obj i) =
        .ok (if isoIsGeneratedFeedback p skb then .drop else .success, skb.isoClearEcn, txc') ∧
      TxClass.SameTable txc txc' ∧
      ((p.isoVqDrainRateMbps ≤ p.isoMaxTxRate ∧ skbHasFeedback p skb ≠ 0) ∧
          RateDue p env (txc.state i) →
        ∀ j, (txc.state i).rl = .obj j → (txc'.rls j).rate = skbHasFeedback p skb) := by
  obtain ⟨j, _, hrl, -, -⟩ := h.limited b i hi
  obtain ⟨txc', hinstall, hsame, hrate⟩ := installRate_eq hrl env.rateNow (skbHasFeedback p skb)
  rw [useState, installIfDue]
  by_cases hdue : (p.isoVqDrainRateMbps ≤ p.isoMaxTxRate ∧ skbHasFeedback p skb ≠ 0) ∧
      RateDue p env (txc.state i)
  · simp only [if_pos hdue, hinstall]
    refine ⟨txc', rfl, hsame, fun _ j' hj' => ?_⟩
    obtain rfl : j = j' := Ptr.obj.inj (hrl.symm.trans hj')
    exact hrate
  · simp only [if_neg hdue]
    exact ⟨txc, rfl, TxClass.SameTable.refl txc, fun h => absurd h hdue⟩

/-! ### The invariant -/

/-- The two contexts of a host are in order. -/
structure Sound (plat : Platform) (p : Params) (h : Host C) : Prop where
  rx : h.rx.Sound p fun _ => True
  tx : h.tx.Pooled plat

theorem init_sound (hp : p.Sane) (plat : Platform) (statsNow rcpNow : ℕ) :
    (init p statsNow rcpNow : Host C).Sound plat p :=
  ⟨RxContext.init_sound hp _ statsNow rcpNow, fun _ => TxClass.init_pooled ..⟩

variable [DecidableEq C] {h : Host C}

theorem autoGenerate_ends {vq : Vq C} (hvq : vq.Settled p) (hst : vq.percpuStats.isSome)
    (env : RxEnv C) (skb : Skb) :
    Ends (fun r => Vq.Kept p vq r.2 ∧ r.2.feedbackRate = vq.feedbackRate ∧
        ∀ out, r.1 = some out → out = isoGenerateFeedback p env.alloc vq.isoVqOverLimits skb)
      (fun _ => False) (autoGenerate p env skb vq) := by
  obtain ⟨stats, hstats⟩ := Option.isSome_iff_exists.1 hst
  have hkept : ∀ f, Vq.Kept p vq { vq with percpuStats := some f } := fun f =>
    ⟨⟨hvq.weight_le, hvq.cap_pos, hvq.feedbackRate_ge⟩, rfl, rfl, by simp [hstats]⟩
  rw [autoGenerate]
  simp only [hstats]
  refine Ends.ite (fun _ => ⟨hkept _, rfl, ?_⟩) fun _ => ⟨hkept _, rfl, ?_⟩
  · rintro out ⟨⟩
    rfl
  · rintro out ⟨⟩

theorem finish_ends (hs : h.Sound plat p) {v : ℕ} (hst : (h.rx.vqs v).percpuStats.isSome)
    (env : RxEnv C) (verdict : IsoVerdict) (skb : Skb) :
    Ends (fun r => r.1.verdict = verdict ∧ (verdict = .drop → r.1.feedback = none) ∧
        r.2.Sound plat p ∧ r.2.tx = h.tx ∧
        ∀ out, r.1.feedback = some out → out =
          isoGenerateFeedback p env.alloc (r.2.rx.vqs v).isoVqOverLimits skb) (fun _ => False)
      (finish p env v verdict skb h) := by
  rw [finish]
  refine Ends.ite (fun hauto => ?_) fun _ =>
    ⟨rfl, fun _ => rfl, hs, rfl, fun _ hout => nomatch hout⟩
  refine (autoGenerate_ends (hs.rx.vq v) hst env skb).bind fun r hr => ?_
  obtain ⟨hkept, hfb, hout⟩ := hr
  have hrx : (h.rx.modifyVq v fun _ => r.2).Sound p fun _ => True :=
    hs.rx.modifyVq v hkept.settled (Or.inl trivial) hkept.percpuStats
  refine ⟨rfl, fun hdrop => absurd hdrop hauto.2, ⟨hrx, hs.tx⟩, rfl, ?_⟩
  · intro out h'
    rw [hout out h']
    simp [RxContext.modifyVq, Vq.isoVqOverLimits, hfb]

/-- `iso_rx` for a packet with a VQ and a class, from the lookup of the state on. -/
theorem isoRx_eq (hp : p.Sane) (hs : h.Sound plat p) (online : List C) {env : RxEnv C} {skb : Skb}
    {v k : ℕ} (hv : h.rx.isoVqFind plat (isoRxClassify skb) = some v)
    (hready : (h.rx.vqs v).Ready p env)
    (hk : h.tx.isoTxcFind plat (isoRxClassify skb) = some k) :
    ∃ rx, RxContext.Sound p (fun _ => True) rx ∧ (rx.vqs v).percpuStats.isSome ∧
      isoRx plat p online env skb h =
        (useState p env skb
            (TxClass.isoStateGet plat env.stateNow (h.tx.txcs k) skb true
              (isoIsFeedbackMarked p skb) env.writelock).2
            (TxClass.isoStateGet plat env.stateNow (h.tx.txcs k) skb true
              (isoIsFeedbackMarked p skb) env.writelock).1 >>=
          fun r => finish p env v r.1 r.2.1 ⟨rx, h.tx.modifyTxc k fun _ => r.2.2⟩) := by
  have hready' : ∀ w, h.rx.isoVqFind plat (isoRxClassify skb) = some w →
      (h.rx.vqs w).ReadyBut p (fun _ => False) env := by
    intro w hw
    obtain rfl : v = w := Option.some.inj (hv.symm.trans hw)
    exact hready.but
  obtain ⟨⟨v', rx⟩, hreceive, hv', hrx, hst⟩ :=
    (RxContext.receive_ends hp hs.rx plat online skb hready').exists_ok
  simp only at hv' hst
  rw [hv] at hv'
  subst hv'
  refine ⟨rx, hrx, hst v rfl, ?_⟩
  rw [isoRx, hreceive, hk]
  rfl

/-- A packet for a VQ that is not ready for it. -/
theorem isoRx_fails (hp : p.Sane) (hs : h.Sound plat p) (online : List C)
    {env : RxEnv C} {skb : Skb} {v : ℕ} (hv : h.rx.isoVqFind plat (isoRxClassify skb) = some v)
    (hready : ¬ (h.rx.vqs v).Ready p env) : Fails (isoRx plat p online env skb h) :=
  (RxContext.receive_fails hp hs.rx plat online hv hready).bind

omit [DecidableEq C] in
/-- The state that `iso_state_get` returns can be used, unless it is none. -/
theorem useState_ends {txc : TxClass C} (htxc : txc.Pooled plat) (now : ℕ) (env : RxEnv C)
    (skb : Skb) (create trylock : Bool) :
    Ends (fun r => r.2.2.Pooled plat) (· = .wild)
      (useState p env skb (TxClass.isoStateGet plat now txc skb true create trylock).2
        (TxClass.isoStateGet plat now txc skb true create trylock).1) := by
  by_cases hip : skb.isIp
  · have hgot := htxc.isoStateGet_got now hip true create trylock
    have hpooled := hgot.pooled htxc
    generalize TxClass.isoStateGet plat now txc skb true create trylock = got at hgot hpooled ⊢
    obtain ⟨state, txc'⟩ := got
    cases state with
    | null => exact hpooled
    | listHead => rfl -- the head of the list is used as a state
    | obj i =>
      obtain ⟨b, hi⟩ := hgot.exists_mem
      obtain ⟨txc'', huse, hsame, -⟩ := useState_obj (p := p) hpooled hi env skb
      simp only [huse]
      exact hpooled.congr hsame
  · rw [TxClass.isoStateGet_of_not_isIp now hip]
    exact htxc

/-- `iso_rx` keeps the host in order, and what it sends is built from the rate of the packet's
VQ. -/
theorem isoRx_ends (hp : p.Sane) (hs : h.Sound plat p) (online : List C) (env : RxEnv C)
    (skb : Skb) :
    Ends (fun r => r.2.Sound plat p ∧ ∀ v, h.rx.isoVqFind plat (isoRxClassify skb) = some v →
        ∀ out, r.1.feedback = some out → ∃ pkt,
          out = isoGenerateFeedback p env.alloc (r.2.rx.vqs v).isoVqOverLimits pkt) (fun _ => True)
      (isoRx plat p online env skb h) := by
  rw [isoRx]
  refine (RxContext.receive_ends hp hs.rx plat online skb fun v hv => hs.rx.readyBut env hv).bind
    fun r hr => ?_
  obtain ⟨vq, rx⟩ := r
  obtain ⟨hfind, hrx, hst⟩ := hr
  simp only at hfind hrx hst ⊢
  rcases vq with _ | v
  · exact ⟨⟨hrx, hs.tx⟩, fun _ _ _ hout => nomatch hout⟩
  · rcases hk : h.tx.isoTxcFind plat (isoRxClassify skb) with _ | k
    · exact ⟨⟨hrx, hs.tx⟩, fun _ _ _ hout => nomatch hout⟩
    · have huse := useState_ends (p := p) (hs.tx k) env.stateNow env skb (isoIsFeedbackMarked p skb)
        env.writelock
      refine (huse.mono (fun _ hr => hr) fun _ _ => trivial).bind fun r hr => ?_
      have htx : (h.tx.modifyTxc k fun _ => r.2.2).Pooled plat := hs.tx.modifyTxc k hr
      have hs' : (⟨rx, h.tx.modifyTxc k fun _ => r.2.2⟩ : Host C).Sound plat p := ⟨hrx, htx⟩
      refine (finish_ends hs' (hst v rfl) env r.1 r.2.1).mono (fun r' hr' => ⟨hr'.2.2.1, ?_⟩)
        fun _ _ => trivial
      intro w hw out hout
      obtain rfl : v = w := Option.some.inj (hfind.trans hw)
      exact ⟨r.2.1, hr'.2.2.2.2 out hout⟩

/-! ### Runs -/

/-- An operation of the receive context, as one of the host. -/
theorem step_rx_ends (hp : p.Sane) (hs : h.Sound plat p) (online : List C) (op : RxContext.Op C) :
    Ends (fun r => r.2.Sound plat p) (fun _ => True)
      (do let rx ← h.rx.step plat p online op; pure ((none : Option Skb), { h with rx := rx })) :=
  (RxContext.step_ends hp hs.rx plat online op.ok_true).bind fun _ hrx => ⟨hrx, hs.tx⟩

omit [DecidableEq C] in
theorem isoSysAssocTxcVq_sound (hs : h.Sound plat p) (txclass vqclass : UInt32) :
    (isoSysAssocTxcVq plat txclass vqclass h).2.Sound plat p := by
  rw [isoSysAssocTxcVq]
  split
  · exact ⟨hs.rx.assoc plat _ vqclass, hs.tx.congr (TxContext.assoc_sameIndex txclass _)⟩
  · exact hs

theorem step_ends (hp : p.Sane) (hs : h.Sound plat p) (online : List C) (op : Op C) :
    Ends (fun r => r.2.Sound plat p) (fun _ => True) (step plat p online h op) := by
  cases op with
  | createTxc now kmalloc rounds klass =>
    exact ⟨hs.rx, hs.tx.step (.createTxc now kmalloc rounds klass)⟩
  | setTxcWeight klass weight => exact ⟨hs.rx, hs.tx.step (.setTxcWeight klass weight)⟩
  | setTxcRate klass rate => exact ⟨hs.rx, hs.tx.step (.setTxcRate klass rate)⟩
  | createVq now kmalloc percpu klass =>
    exact step_rx_ends hp hs online (.createVq now kmalloc percpu klass)
  | setVqWeight klass weight => exact step_rx_ends hp hs online (.setVqWeight klass weight)
  | setVqRate klass rate => exact step_rx_ends hp hs online (.setVqRate klass rate)
  | assocTxcVq txclass vqclass => exact isoSysAssocTxcVq_sound hs txclass vqclass
  | recomputeDev =>
    exact (RxContext.isoVqCalculateRates_ends hs.rx).bind fun _ hrx =>
      ⟨hrx, hs.tx.step .recomputeDev⟩
  | txClass k op =>
    have htx : (h.tx.modifyTxc k fun txc => txc.step plat p op).Pooled plat :=
      hs.tx.modifyTxc k ((hs.tx k).step p op)
    exact ⟨hs.rx, htx⟩
  | packet env skb => exact (isoRx_ends hp hs online env skb).bind fun _ hr => hr.1

end Host

namespace Net

variable [DecidableEq C]

/-- Both hosts are in order. -/
def Sound (plat : Platform) (p : Params) (net : Net C) : Prop :=
  ∀ side, (net.host side).Sound plat p

omit [DecidableEq C] in
theorem Sound.become {net : Net C} (hs : net.Sound plat p) (side : Bool) {r : Option Skb × Host C}
    (hr : r.2.Sound plat p) : (net.become side r).Sound plat p := by
  intro side'
  simp only [Net.become, Function.update_apply]
  split_ifs
  · exact hr
  · exact hs side'

theorem step_ends (hp : p.Sane) {net : Net C} (hs : net.Sound plat p)
    (online : List C) (op : Op C) :
    Ends (Sound plat p) (fun _ => True) (step plat p online net op) := by
  cases op with
  | host side op =>
    refine Ends.map ((Host.step_ends hp (hs side) online op).mono (fun r hr => ?_) fun _ he => he)
    exact hs.become side hr
  | send side skb => exact hs
  | lose n => exact hs
  | deliver n env =>
    rw [step]
    split
    · exact hs
    · rename_i side skb _
      have hlost : ({ net with wire := net.wire.eraseIdx n } : Net C).Sound plat p := hs
      refine Ends.map ((Host.step_ends hp (hs side) online (.packet env skb.pulled)).mono
        (fun r hr => ?_) fun _ he => he)
      exact hlost.become side hr

/-- The hosts are in order in every state that a run reaches. -/
theorem runFrom_sound (hp : p.Sane) {online : List C} {t : Bool → ℕ × ℕ} {ops : List (Op C)}
    {net : Net C} (hrun : runFrom plat p online t ops = .ok net) : net.Sound plat p := by
  have hends := runE_ends (P := Sound plat p) (step plat p online)
    (fun _ op (_ : True) hs => step_ends hp hs online op)
    (show (init p t : Net C).Sound plat p from fun side => Host.init_sound hp plat _ _)
    fun op (_ : op ∈ ops) => trivial
  rw [runFrom] at hrun
  rw [hrun] at hends
  exact hends

end Net

end EyeQ
