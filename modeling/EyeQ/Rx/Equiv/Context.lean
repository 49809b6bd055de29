import EyeQ.Rx.Context
import EyeQ.Vq.Equiv.Drain

/-!
# The receive context: safety

`RxContext.Sound` is the invariant of a receive context: the aggregate rate lies between
`ISO_MIN_RFAIR` and `ISO_VQ_DRAIN_RATE_MBPS`, and every VQ is settled.  Everything is stated for a
set `E` of faults that a run may end with.  A VQ whose per-CPU counters could not be allocated makes
the next packet fault (`Fault.wild`), and so does one of weight zero when it is drained
(`Fault.divide`).  A VQ that has neither trouble takes every packet (`receive_ends`).

* `runFrom_sound`: the invariant holds in every run.
* `runFrom_no_fault`: a run without weights of zero and without failed allocations does not fault.
* `runFrom_no_divide`: a run in which no VQ is given the weight 0 divides by zero nowhere.
* `runFrom_divide`: after `set_vq_weight` has accepted the weight 0, the next packet does.
-/

namespace EyeQ

open Machine

variable {C : Type} {p : Params} {E F : Fault → Prop}

/-! ### The context -/

namespace RxContext

/-- The invariant, in runs that may end with a fault of `E`. -/
structure Sound (p : Params) (E : Fault → Prop) (ctx : RxContext C) : Prop where
  rcpRate_ge : p.isoMinRfair ≤ ctx.rcpRate
  rcpRate_le : ctx.rcpRate ≤ p.isoVqDrainRateMbps
  vq : ∀ v, (ctx.vqs v).Settled p
  weight_pos : ∀ v, E .divide ∨ 0 < (ctx.vqs v).weight
  stats : ∀ b, ∀ v ∈ ctx.vqBucket b, E .wild ∨ (ctx.vqs v).percpuStats.isSome

variable {ctx : RxContext C}

theorem init_sound (hp : p.Sane) (E : Fault → Prop) (statsNow rcpNow : ℕ) :
    (init p statsNow rcpNow : RxContext C).Sound p E := by
  have hlt := hp.drainRate_lt
  have hrcp : (init p statsNow rcpNow : RxContext C).rcpRate = p.isoVqDrainRateMbps :=
    u32_of_lt (by omega)
  refine ⟨?_, ?_, fun _ => Vq.init_settled .., fun _ => Or.inr Nat.one_pos,
    fun _ _ h => absurd h List.not_mem_nil⟩
  · rw [hrcp]
    exact hp.minRfair_le
  · rw [hrcp]

theorem mem_of_isoVqFind {plat : Platform} {klass : UInt32} {v : ℕ}
    (h : isoVqFind plat ctx klass = some v) : v ∈ ctx.vqBucket (classHash plat klass) :=
  List.mem_of_find?_eq_some h

/-- A VQ may be changed if it stays settled and keeps its weight and its counters. -/
theorem Sound.modifyVq (h : ctx.Sound p E) (v : ℕ) {f : Vq C → Vq C}
    (hf : (f (ctx.vqs v)).Settled p) (hweight : E .divide ∨ 0 < (f (ctx.vqs v)).weight)
    (hst : (f (ctx.vqs v)).percpuStats.isSome = (ctx.vqs v).percpuStats.isSome) :
    (ctx.modifyVq v f).Sound p E := by
  refine ⟨h.rcpRate_ge, h.rcpRate_le, ?_, ?_, ?_⟩
  · intro v'
    simp only [RxContext.modifyVq, Function.update_apply]
    split_ifs
    · exact hf
    · exact h.vq v'
  · intro v'
    simp only [RxContext.modifyVq, Function.update_apply]
    split_ifs
    · exact hweight
    · exact h.weight_pos v'
  · intro b v' hmem
    have hold := h.stats b v' hmem
    by_cases hv : v' = v
    · subst hv
      simpa [RxContext.modifyVq, hst] using hold
    · simpa [RxContext.modifyVq, Function.update_of_ne hv] using hold

theorem isoVqCalculateRates_ends (h : ctx.Sound p E) :
    Ends (Sound p E) E (isoVqCalculateRates p ctx) := by
  rw [isoVqCalculateRates]
  refine Ends.ite (fun htotal => ?_) fun _ => h
  -- the loop is a run of its body over the list
  refine runE_ends (P := Sound p E) _ (fun ctx v (_ : True) h => ?_) h fun _ _ => trivial
  rw [calculateRate]
  refine Ends.ite (fun _ => h) fun hstatic => ?_
  refine (Vq.udiv_ends _ (Or.inr htotal)).bind fun rate _ => ?_
  have hv := h.vq v
  exact h.modifyVq v ⟨hv.weight_le, fun hs => absurd hs hstatic, hv.feedbackRate_ge⟩
    (h.weight_pos v) rfl

theorem isoVqAlloc_ends (h : ctx.Sound p E) (plat : Platform) (now : ℕ) (kmalloc percpu : Bool)
    (hpercpu : E .wild ∨ percpu = true) (klass : UInt32) :
    Ends (fun r => r.2.Sound p E) E (isoVqAlloc plat p now kmalloc percpu klass ctx) := by
  rw [isoVqAlloc]
  refine Ends.ite (fun _ => ?_) fun _ => h
  have hnew : ({ ctx with
      vqs := Function.update ctx.vqs ctx.brk (Vq.init p now percpu klass)
      brk := ctx.brk + 1
      vqList := ctx.vqList ++ [ctx.brk]
      vqBucket := addHead ctx.vqBucket (classHash plat klass) ctx.brk } :
        RxContext C).Sound p E := by
    refine ⟨h.rcpRate_ge, h.rcpRate_le, ?_, ?_, ?_⟩
    · intro v
      simp only [Function.update_apply]
      split_ifs
      · exact Vq.init_settled ..
      · exact h.vq v
    · intro v
      simp only [Function.update_apply]
      split_ifs
      · exact Or.inr Nat.one_pos
      · exact h.weight_pos v
    · intro b v hmem
      simp only [Function.update_apply]
      split_ifs with hv
      · rcases hpercpu with hwild | rfl
        · exact Or.inl hwild
        · exact Or.inr rfl
      · rcases mem_addHead.1 hmem with ⟨rfl, -⟩ | hold
        · exact absurd rfl hv
        · exact h.stats b v hold
  exact (isoVqCalculateRates_ends hnew).bind fun _ hctx => hctx

theorem isoVqInstall_ends (h : ctx.Sound p E) (plat : Platform) (now : ℕ) (kmalloc percpu : Bool)
    (hpercpu : E .wild ∨ percpu = true) (klass : UInt32) :
    Ends (fun r => r.2.Sound p E) E (isoVqInstall plat p now kmalloc percpu klass ctx) := by
  rw [isoVqInstall]
  split
  · exact h
  · exact (isoVqAlloc_ends h plat now kmalloc percpu hpercpu klass).bind fun _ hctx => hctx

theorem isoSysSetVqWeight_ends (h : ctx.Sound p E) (plat : Platform) (klass : UInt32) {weight : ℤ}
    (hweight : E .divide ∨ weight ≠ 0) :
    Ends (fun r => r.2.Sound p E) E (isoSysSetVqWeight plat p klass weight ctx) := by
  rw [isoSysSetVqWeight]
  split
  · exact h
  · rename_i v _
    refine Ends.ite (fun _ => h) fun hrange => ?_
    have hw : u64OfInt weight = weight.toNat := by
      unfold u64OfInt
      omega
    have hv := h.vq v
    refine (isoVqCalculateRates_ends (h.modifyVq v ⟨?_, hv.cap_pos, hv.feedbackRate_ge⟩ ?_
      rfl)).bind fun _ hctx => hctx
    · show u64OfInt weight ≤ 1024
      omega
    · -- what the command accepts is 0..1024
      refine hweight.imp_right fun hne => ?_
      show 0 < u64OfInt weight
      omega

theorem isoSysSetVqRate_ends (hp : p.Sane) (h : ctx.Sound p E) (plat : Platform) (klass : UInt32)
    (rate : ℤ) : Ends (fun r => r.2.Sound p E) E (isoSysSetVqRate plat p klass rate ctx) := by
  rw [isoSysSetVqRate]
  split
  · exact h
  · rename_i v _
    have hv := h.vq v
    refine Ends.ite (fun _ => h) fun hrange => Ends.ite (fun hpos => ?_) fun _ => ?_
    · have hcap : 0 < u64OfInt rate := by
        have hlt := hp.drainRate_lt
        unfold u64OfInt
        omega
      have hcapped : (ctx.modifyVq v fun vq =>
          { vq with rate := u64OfInt rate, isStatic := true }).Sound p E :=
        h.modifyVq v ⟨hv.weight_le, fun _ => hcap, hv.feedbackRate_ge⟩ (h.weight_pos v) rfl
      exact hcapped
    · refine (isoVqCalculateRates_ends (h.modifyVq v ⟨hv.weight_le, ?_, hv.feedbackRate_ge⟩
        (h.weight_pos v) rfl)).bind fun _ hctx => hctx
      exact fun hs => absurd hs (by simp)

theorem Sound.assoc (h : ctx.Sound p E) (plat : Platform) (old : Option ℕ) (klass : UInt32) :
    (assoc plat old klass ctx).Sound p E := by
  -- a reference count is no part of the invariant
  have hcount : ∀ (ctx : RxContext C), ctx.Sound p E → ∀ (v : ℕ) (d : ℤ),
      (ctx.modifyVq v fun vq => { vq with refcnt := vq.refcnt + d }).Sound p E := by
    intro ctx h v d
    have hv := h.vq v
    exact h.modifyVq v ⟨hv.weight_le, hv.cap_pos, hv.feedbackRate_ge⟩ (h.weight_pos v) rfl
  unfold RxContext.assoc
  split
  · exact h
  · cases old with
    | none => exact hcount _ h _ 1
    | some o => exact hcount _ (hcount _ h o (-1)) _ 1

/-! ### Packets -/

variable [DecidableEq C]

theorem isoRxStatsUpdate_ends (hp : p.Sane) (h : ctx.Sound p E) (online : List C) (env : RxEnv C)
    (skb : Skb) :
    Ends (fun ctx' => ctx'.Sound p E ∧ ctx'.vqs = ctx.vqs ∧ ctx'.vqBucket = ctx.vqBucket) F
      (isoRxStatsUpdate p online env skb ctx) := by
  have hinterval := hp.vqUpdateInterval_pos
  rw [isoRxStatsUpdate]
  refine Ends.ite (fun _ => ?_) fun hdue => ?_
  · exact ⟨⟨h.rcpRate_ge, h.rcpRate_le, h.vq, h.weight_pos, h.stats⟩, rfl, rfl⟩
  · refine (Vq.udiv_ends _ (Or.inr ?_)).bind fun rate _ => ?_
    · -- the interval has passed, so `dt` is not zero
      rw [not_or] at hdue
      omega
    · exact ⟨⟨h.rcpRate_ge, h.rcpRate_le, h.vq, h.weight_pos, h.stats⟩, rfl, rfl⟩

omit [DecidableEq C] in
theorem isoRxRcpUpdate_ends (hp : p.Sane) (h : ctx.Sound p E) (env : RxEnv C) :
    Ends (fun ctx' => ctx'.Sound p E ∧ ctx'.vqs = ctx.vqs ∧ ctx'.vqBucket = ctx.vqBucket) F
      (isoRxRcpUpdate p env ctx) := by
  have hpos := hp.minRfair_pos
  have hmin := hp.minRfair_le
  have hlt := hp.drainRate_lt
  rw [isoRxRcpUpdate]
  refine Ends.ite (fun _ => ⟨h, rfl, rfl⟩) fun _ => ?_
  -- twice the link rate is not zero as a `u32` either
  rw [updateRcp, u32_of_lt (n := p.isoVqDrainRateMbps * 2) (by omega)]
  refine (Vq.udiv_ends _ (Or.inr (by omega))).bind fun rate _ => ?_
  have hfit : u32 (min p.isoVqDrainRateMbps (max p.isoMinRfair rate)) =
      min p.isoVqDrainRateMbps (max p.isoMinRfair rate) := u32_of_lt (by omega)
  refine ⟨⟨?_, ?_, h.vq, h.weight_pos, h.stats⟩, rfl, rfl⟩
  · show _ ≤ u32 _
    omega
  · show u32 _ ≤ _
    omega

/-- Before the packet is counted in its VQ, no VQ and no chain changes. -/
theorem update_ends (hp : p.Sane) (h : ctx.Sound p E) (online : List C)
    (env : RxEnv C) (skb : Skb) :
    Ends (fun ctx' => ctx'.Sound p E ∧ ctx'.vqs = ctx.vqs ∧ ctx'.vqBucket = ctx.vqBucket) F
      (isoRxStatsUpdate p online env skb ctx >>= isoRxRcpUpdate p env) := by
  refine (isoRxStatsUpdate_ends hp h online env skb).bind fun ctx₁ h₁ => ?_
  refine (isoRxRcpUpdate_ends hp h₁.1 env).mono (fun ctx₂ h₂ => ?_) fun _ he => he
  exact ⟨h₂.1, h₂.2.1.trans h₁.2.1, h₂.2.2.trans h₁.2.2⟩

/-- A packet finds the VQ it would have found before the controllers ran.  It can end with a fault
of `F` only, if its VQ is ready but for these. -/
theorem receive_ends (hp : p.Sane) (h : ctx.Sound p E) (plat : Platform) (online : List C)
    {env : RxEnv C} (skb : Skb)
    (hready : ∀ v, isoVqFind plat ctx (isoRxClassify skb) = some v →
      (ctx.vqs v).ReadyBut p F env) :
    Ends (fun r => r.1 = isoVqFind plat ctx (isoRxClassify skb) ∧ r.2.Sound p E ∧
        ∀ v, r.1 = some v → (r.2.vqs v).percpuStats.isSome) F
      (receive plat p online env skb ctx) := by
  rw [receive, ← bind_assoc]
  refine (update_ends hp h online env skb).bind fun ctx₂ h₂ => ?_
  obtain ⟨hsound, hvqs, hbucket⟩ := h₂
  have hfind : isoVqFind plat ctx₂ (isoRxClassify skb) =
      isoVqFind plat ctx (isoRxClassify skb) := by
    rw [isoVqFind, isoVqFind, hbucket, hvqs]
  rw [hfind]
  rcases hv : isoVqFind plat ctx (isoRxClassify skb) with _ | v
  · exact ⟨rfl, hsound, fun _ hnone => nomatch hnone⟩
  · have hready' : (ctx₂.vqs v).ReadyBut p F env := by
      rw [hvqs]
      exact hready v hv
    refine (Vq.isoVqEnqueue_ends hp (hsound.vq v) hready' hsound.rcpRate_ge hsound.rcpRate_le online
      skb).bind fun vq hvq => ?_
    obtain ⟨hkept, hst⟩ := hvq
    have hmodified : (ctx₂.modifyVq v fun _ => vq).Sound p E := by
      refine hsound.modifyVq v hkept.settled ?_ hkept.percpuStats
      rw [hkept.weight]
      exact hsound.weight_pos v
    refine ⟨rfl, hmodified, ?_⟩
    rintro _ ⟨⟩
    simpa [modifyVq] using hst

/-- A packet for a VQ that is not ready for it. -/
theorem receive_fails (hp : p.Sane) (h : ctx.Sound p E) (plat : Platform) (online : List C)
    {env : RxEnv C} {skb : Skb} {v : ℕ} (hv : isoVqFind plat ctx (isoRxClassify skb) = some v)
    (hready : ¬ (ctx.vqs v).Ready p env) : Fails (receive plat p online env skb ctx) := by
  rw [receive, ← bind_assoc]
  have hupdate := update_ends (F := fun _ => True) hp h online env skb
  refine hupdate.bind_fails fun ctx₂ h₂ => ?_
  obtain ⟨hsound, hvqs, hbucket⟩ := h₂
  have hfind : isoVqFind plat ctx₂ (isoRxClassify skb) = some v := by
    rw [← hv, isoVqFind, isoVqFind, hbucket, hvqs]
  rw [hfind]
  rw [← hvqs] at hready
  exact (Vq.isoVqEnqueue_fails hp (hsound.vq v) hready ctx₂.rcpRate online skb).bind

omit [DecidableEq C] in
/-- In a run that may end with a fault of `E`, every VQ is ready but for these faults. -/
theorem Sound.readyBut (h : ctx.Sound p E) {plat : Platform} (env : RxEnv C)
    {klass : UInt32} {v : ℕ} (hv : isoVqFind plat ctx klass = some v) :
    (ctx.vqs v).ReadyBut p E env :=
  ⟨h.stats _ v (mem_of_isoVqFind hv), fun _ => h.weight_pos v⟩

/-! ### Runs -/

/-- No weight is set to zero, and the counters of a VQ can be allocated, unless `E` allows
otherwise. -/
def Op.Ok (E : Fault → Prop) : Op C → Prop
  | .setVqWeight _ weight => E .divide ∨ weight ≠ 0
  | .createVq _ _ percpu _ => E .wild ∨ percpu = true
  | _ => True

omit [DecidableEq C] in
theorem Op.ok_true (op : Op C) : op.Ok fun _ => True := by
  cases op with
  | setVqWeight | createVq => exact Or.inl trivial
  | setVqRate | assocTxcVq | recomputeDev | packet => trivial

theorem step_ends (hp : p.Sane) (h : ctx.Sound p E) (plat : Platform) (online : List C) {op : Op C}
    (hop : op.Ok E) : Ends (Sound p E) E (step plat p online ctx op) := by
  cases op with
  | createVq now kmalloc percpu klass =>
    exact (isoVqInstall_ends h plat now kmalloc percpu hop klass).map
  | setVqWeight klass weight => exact (isoSysSetVqWeight_ends h plat klass hop).map
  | setVqRate klass rate => exact (isoSysSetVqRate_ends hp h plat klass rate).map
  | assocTxcVq old klass => exact h.assoc plat old klass
  | recomputeDev => exact isoVqCalculateRates_ends h
  | packet env skb =>
    have hreceive := receive_ends hp h plat online skb fun v hv => h.readyBut env hv
    exact (hreceive.mono (fun _ hr => hr.2.1) fun _ he => he).map

/-- The invariant holds in every run of such operations. -/
theorem runFrom_sound (hp : p.Sane) (plat : Platform) (online : List C) (statsNow rcpNow : ℕ)
    {ops : List (Op C)} (hops : ∀ op ∈ ops, op.Ok E) :
    Ends (Sound p E) E (runFrom plat p online statsNow rcpNow ops) :=
  runE_ends (P := Sound p E) (step plat p online)
    (fun _ op (hop : op.Ok E) h => step_ends hp h plat online hop)
    (init_sound hp E statsNow rcpNow) hops

/-- If the counters can be allocated, too, no command and no packet faults. -/
theorem runFrom_no_fault (hp : p.Sane) (plat : Platform) (online : List C) (statsNow rcpNow : ℕ)
    {ops : List (Op C)} (hops : ∀ op ∈ ops, op.Ok fun _ => False) :
    ∃ ctx, runFrom plat p online statsNow rcpNow ops = .ok ctx ∧ ctx.Sound p fun _ => False :=
  (runFrom_sound hp plat online statsNow rcpNow hops).exists_ok

/-- **No division by zero**: a run of any commands and packets in which no `set_vq_weight` asks for
the weight 0 does not end with a division by zero, in `iso_vq_drain`, in `iso_vq_calculate_rates` or
in the two controllers. -/
theorem runFrom_no_divide (hp : p.Sane) (plat : Platform) (online : List C) (statsNow rcpNow : ℕ)
    (ops : List (Op C)) (hops : ∀ klass weight, .setVqWeight klass weight ∈ ops → weight ≠ 0) :
    runFrom plat p online statsNow rcpNow ops ≠ .error .divide := by
  have hok : ∀ op ∈ ops, op.Ok (fun e => e ≠ .divide) := by
    intro op hop
    cases op with
    | setVqWeight klass weight => exact Or.inr (hops klass weight hop)
    | createVq => exact Or.inl (by decide)
    | setVqRate | assocTxcVq | recomputeDev | packet => trivial
  have hends := runFrom_sound hp plat online statsNow rcpNow hok
  intro hrun
  rw [hrun] at hends
  exact hends rfl

/-- A packet to the class `0x0a000001`, 300 µs after the beginning. -/
def latePacket : Op Unit :=
  .packet ⟨(), 300000, true, 300000, true, 300000, true, 300000, 300000, true, 300000, true, 300000,
    300000, none⟩ (.datagram 0 1500 0x0a000002 0x0a000001 6 0 0)

theorem runFrom_no_divide_latePacket :
    runFrom Platform.x86 {} [()] 0 0
      [.createVq 0 true true 0x0a000001, .setVqWeight 0x0a000001 2, latePacket] ≠ .error .divide :=
  runFrom_no_divide Params.sane_default _ _ _ _ _ (by simp [latePacket])

/-- `set_vq_weight` accepts the weight 0, and the next packet divides by `rate2 = 0`. -/
theorem runFrom_divide :
    runFrom Platform.x86 {} [()] 0 0
      [.createVq 0 true true 0x0a000001, .setVqWeight 0x0a000001 0, latePacket] =
        .error .divide := by
  rfl

end RxContext

end EyeQ
