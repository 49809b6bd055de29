import EyeQ.Host.Equiv.Feedback

/-!
# What a host answers

`isoRx_answers`: a feedback packet that `iso_rx` sends goes back where the received packet came
from, in the name of the address that it was sent to.  It carries the low 16 bits of the feedback
rate of the VQ of that address.
-/

namespace EyeQ

open Machine

variable {C : Type} [DecidableEq C] {plat : Platform} {p : Params}

namespace RxContext

variable {ctx : RxContext C} {E : Fault → Prop}

omit [DecidableEq C] in
/-- A change of a VQ that leaves its class alone. -/
theorem isoVqFind_modifyVq {v : ℕ} {f : Vq C → Vq C}
    (hklass : (f (ctx.vqs v)).klass = (ctx.vqs v).klass) (klass : UInt32) :
    (ctx.modifyVq v f).isoVqFind plat klass = ctx.isoVqFind plat klass := by
  unfold isoVqFind modifyVq
  simp only [field_update Vq.klass ctx.vqs hklass]

/-- The VQ of a packet is found before the packet and after it. -/
theorem receive_find (hp : p.Sane) (h : ctx.Sound p fun _ => True) (plat : Platform)
    (online : List C) (env : RxEnv C) (skb : Skb) :
    Ends (fun r => r.2.isoVqFind plat (isoRxClassify skb) = r.1) (fun _ => True)
      (receive plat p online env skb ctx) := by
  rw [receive, ← bind_assoc]
  refine (update_ends hp h online env skb).bind fun ctx₂ h₂ => ?_
  obtain ⟨hsound, hvqs, hbucket⟩ := h₂
  rcases hv : isoVqFind plat ctx₂ (isoRxClassify skb) with _ | v
  · exact hv
  · refine (Vq.isoVqEnqueue_ends hp (hsound.vq v) (hsound.readyBut env hv) hsound.rcpRate_ge
      hsound.rcpRate_le online skb).bind fun vq hvq => ?_
    show (ctx₂.modifyVq v fun _ => vq).isoVqFind plat (isoRxClassify skb) = some v
    rw [isoVqFind_modifyVq hvq.1.klass]
    exact hv

end RxContext

namespace Host

variable {h : Host C}

omit [DecidableEq C] in
/-- The packet that is passed on is the one that was received. -/
theorem useState_skb {env : RxEnv C} {skb skb' : Skb} {txc txc' : TxClass C} {state : Ptr}
    {verdict : IsoVerdict} (huse : useState p env skb txc state = .ok (verdict, skb', txc')) :
    skb' = skb := by
  cases state with
  | null =>
    cases huse
    rfl
  | listHead => cases huse
  | obj i =>
    obtain ⟨_, -, huse⟩ := bind_eq_ok huse
    cases huse
    exact skb.isoClearEcn_eq

theorem finish_tx {v : ℕ} {env : RxEnv C} {verdict : IsoVerdict} {skb : Skb}
    {out : RxOutcome} {h' : Host C} (hfinish : finish p env v verdict skb h = .ok (out, h')) :
    h'.tx = h.tx := by
  unfold finish at hfinish
  split_ifs at hfinish
  · obtain ⟨⟨fb, vq⟩, -, hfinish⟩ := bind_eq_ok hfinish
    cases hfinish
    rfl
  · cases hfinish
    rfl

/-- What the end of `iso_rx` sends. -/
theorem finish_answers (hs : h.Sound plat p) {v : ℕ}
    (hst : (h.rx.vqs v).percpuStats.isSome) {env : RxEnv C} {verdict : IsoVerdict} {skb fb : Skb}
    {out : RxOutcome} {h' : Host C} (hfinish : finish p env v verdict skb h = .ok (out, h'))
    (hfb : out.feedback = some (some fb)) (klass : UInt32) :
    h'.rx.isoVqFind plat klass = h.rx.isoVqFind plat klass ∧
      isoGenerateFeedback p env.alloc (h'.rx.vqs v).isoVqOverLimits skb = some fb := by
  have hends := (finish_ends hs hst env verdict skb).of_eq_ok hfinish
  refine ⟨?_, (hends.2.2.2.2 _ hfb).symm⟩
  unfold finish at hfinish
  split_ifs at hfinish
  · obtain ⟨⟨fb', vq⟩, hauto, hfinish⟩ := bind_eq_ok hfinish
    cases hfinish
    have hkept := (autoGenerate_ends (hs.rx.vq v) hst env skb).of_eq_ok hauto
    have hklass : vq.klass = (h.rx.vqs v).klass := hkept.1.klass
    exact RxContext.isoVqFind_modifyVq (f := fun _ => vq) hklass klass
  · cases hfinish
    rfl

/-- What a host answers to a packet. -/
structure Answers (plat : Platform) (p : Params) (skb fb : Skb) (rx : RxContext C) : Prop where
  isIp : skb.isIp = true
  saddr : fb.saddr = skb.daddr
  daddr : fb.daddr = skb.saddr
  rate : ∃ v, rx.isoVqFind plat skb.daddr = some v ∧
    skbHasFeedback p fb = (rx.vqs v).feedbackRate % 2 ^ 16

theorem isoRx_answers (hp : p.Sane) (hs : h.Sound plat p) {online : List C}
    {env : RxEnv C} {skb fb : Skb} {out : RxOutcome} {h' : Host C}
    (hrx : isoRx plat p online env skb h = .ok (out, h')) (hfb : out.feedback = some (some fb)) :
    Answers plat p skb fb h'.rx := by
  unfold isoRx at hrx
  obtain ⟨⟨vq, rx⟩, hreceive, hrx⟩ := bind_eq_ok hrx
  have hfind := (RxContext.receive_find hp hs.rx plat online env skb).of_eq_ok hreceive
  have hends := (RxContext.receive_ends hp hs.rx plat online skb fun v hv => hs.rx.readyBut env
    hv).of_eq_ok hreceive
  dsimp only at hfind hends hrx
  rcases vq with _ | v
  · cases hrx
    cases hfb
  rcases hk : h.tx.isoTxcFind plat (isoRxClassify skb) with _ | k
  · rw [hk] at hrx
    cases hrx
    cases hfb
  rw [hk] at hrx
  dsimp only at hrx
  have huse := useState_ends (p := p) (hs.tx k) env.stateNow env skb
    (isoIsFeedbackMarked p skb) env.writelock
  generalize TxClass.isoStateGet plat env.stateNow (h.tx.txcs k) skb true
    (isoIsFeedbackMarked p skb) env.writelock = got at hrx huse
  obtain ⟨state, txc⟩ := got
  obtain ⟨⟨verdict, skb', txc'⟩, hstate, hfinish⟩ := bind_eq_ok hrx
  obtain rfl := useState_skb hstate
  have htx : (h.tx.modifyTxc k fun _ => txc').Pooled plat :=
    hs.tx.modifyTxc k (huse.of_eq_ok hstate)
  have hs' : (⟨rx, h.tx.modifyTxc k fun _ => txc'⟩ : Host C).Sound plat p := ⟨hends.2.1, htx⟩
  obtain ⟨hsame, hgen⟩ := finish_answers hs' (hends.2.2 v rfl) hfinish hfb (isoRxClassify skb')
  have hrate := (skbHasFeedback_isoGenerateFeedback hp hgen).2
  have hip : skb'.isIp := by
    by_contra hip
    rw [isoGenerateFeedback, if_neg hip] at hgen
    cases hgen
  rw [isoRxClassify, if_pos hip] at hsame hfind
  rw [isoGenerateFeedback, if_pos hip, Option.map_eq_some_iff] at hgen
  obtain ⟨ptr, -, rfl⟩ := hgen
  exact ⟨hip, rfl, rfl, v, hsame.trans hfind, hrate⟩

end Host

end EyeQ
