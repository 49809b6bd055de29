import EyeQ.Host.Equiv.Feedback
import EyeQ.Rx.Equiv.Config
import EyeQ.Vq.Equiv.Tally

/-!
# The marked fraction

`Watch` is a host with two history variables for one of its VQs: the packets that `iso_vq_enqueue`
has been given since the VQ was last drained, and for each drain the fraction that it computed and
the packets it was for.  The fraction should be that of the marked packets (`Exact`).

It is not, because `rx_since_last_feedback` has two users.  For `vq.c` it is the number of packets
since the last drain.  The block of `iso_rx` that generates feedback uses it for the number of bytes
since the last feedback packet: it adds the size of the packet to it, and resets it.  `run_exact` is
for the runs in which no packet of the VQ gets to this block, or gets there only after it has
drained the VQ and resets what is zero already.
-/

namespace EyeQ

open Machine

variable {C : Type} {plat : Platform} {p : Params} {online : List C} {v : ℕ} {window : List Skb}

/-! ### What leaves the counters alone -/

namespace RxContext

variable {ctx ctx' ctx'' : RxContext C}

/-- The two contexts have the same VQs, with the same counters. -/
structure SameStats (ctx ctx' : RxContext C) : Prop where
  vqBucket : ctx'.vqBucket = ctx.vqBucket
  brk : ctx'.brk = ctx.brk
  percpuStats : ∀ v, (ctx'.vqs v).percpuStats = (ctx.vqs v).percpuStats

theorem SameStats.refl (ctx : RxContext C) : SameStats ctx ctx := ⟨rfl, rfl, fun _ => rfl⟩

theorem SameStats.trans (h : SameStats ctx ctx') (h' : SameStats ctx' ctx'') :
    SameStats ctx ctx'' :=
  ⟨h'.vqBucket.trans h.vqBucket, h'.brk.trans h.brk,
    fun v => (h'.percpuStats v).trans (h.percpuStats v)⟩

theorem SameStats.modifyVq (ctx : RxContext C) (v : ℕ) {f : Vq C → Vq C}
    (hf : ∀ vq, (f vq).percpuStats = vq.percpuStats) : SameStats ctx (ctx.modifyVq v f) :=
  ⟨rfl, rfl, field_update Vq.percpuStats ctx.vqs (hf _)⟩

theorem Reconfigured.sameStats (h : Reconfigured ctx ctx') : SameStats ctx ctx' where
  vqBucket := h.vqBucket
  brk := h.brk
  percpuStats := h.field Vq.percpuStats fun _ _ _ _ => rfl

theorem assoc_sameStats (old : Option ℕ) (klass : UInt32) (ctx : RxContext C) :
    SameStats ctx (assoc plat old klass ctx) := by
  unfold assoc
  split
  · exact SameStats.refl ctx
  · cases old with
    | none => exact SameStats.modifyVq ctx _ (by intro _; rfl)
    | some o =>
      refine SameStats.trans ?_ (SameStats.modifyVq _ _ (by intro _; rfl))
      exact SameStats.modifyVq ctx o (by intro _; rfl)

/-! ### Following one VQ -/

variable [DecidableEq C]

/-- The counters of the VQ at `v` are those of the window.  Before there is such a VQ the window is
empty. -/
structure Follows (online : List C) (v : ℕ) (window : List Skb) (ctx : RxContext C) : Prop where
  bucket_lt : ∀ b, ∀ v ∈ ctx.vqBucket b, v < ctx.brk
  fresh : ctx.brk ≤ v → window = []
  tallied : v < ctx.brk → ∀ stats, (ctx.vqs v).percpuStats = some stats →
    Vq.Tallied online window stats

section

omit [DecidableEq C]

theorem Follows.congr (h : ctx.Follows online v window) (same : SameStats ctx ctx') :
    ctx'.Follows online v window where
  bucket_lt := by
    rw [same.vqBucket, same.brk]
    exact h.bucket_lt
  fresh := by
    rw [same.brk]
    exact h.fresh
  tallied := by
    rw [same.brk, same.percpuStats]
    exact h.tallied

/-- A new VQ has counted nothing. -/
theorem Follows.link (h : ctx.Follows online v window) (plat : Platform) (p : Params) (now : ℕ)
    (percpu : Bool) (klass : UInt32) :
    ({ ctx with
      vqs := Function.update ctx.vqs ctx.brk (Vq.init p now percpu klass)
      brk := ctx.brk + 1
      vqList := ctx.vqList ++ [ctx.brk]
      vqBucket := addHead ctx.vqBucket (classHash plat klass) ctx.brk } :
        RxContext C).Follows online v window where
  bucket_lt := by
    intro b v' hmem
    rcases mem_addHead.1 hmem with ⟨rfl, -⟩ | hold
    · exact Nat.lt_succ_self _
    · exact Nat.lt_succ_of_lt (h.bucket_lt b v' hold)
  fresh := fun hle => h.fresh (Nat.le_of_succ_le hle)
  tallied := by
    intro hlt stats hstats
    simp only [Function.update_apply] at hstats
    split_ifs at hstats with hv
    · rw [h.fresh hv.ge]
      -- all counters are zero
      cases percpu with
      | false => exact nomatch hstats
      | true =>
        obtain rfl := Option.some.inj hstats
        constructor
        · simp [Vq.total, u32]
        · simp [Vq.total, u32]
    · have hlt : v < ctx.brk + 1 := hlt
      exact h.tallied (by omega) stats hstats

theorem Follows.createVq (h : ctx.Follows online v window) (now : ℕ) (kmalloc percpu : Bool)
    (klass : UInt32) :
    Ends (fun r => r.2.Follows online v window) (fun _ => True)
      (isoVqInstall plat p now kmalloc percpu klass ctx) := by
  rw [isoVqInstall]
  split
  · exact h
  · cases kmalloc with
    | false => exact h
    | true =>
      refine Ends.bind (P := fun r => r.2.Follows online v window) ?_ fun r hr => hr
      exact (Reconfigured.refl _).isoVqCalculateRates.bind fun _ same =>
        (h.link plat p now percpu klass).congr same.sameStats

end

/-- What happens to the receive context, but for packets. -/
theorem Follows.step (h : ctx.Follows online v window) {op : Op C}
    (hop : ∀ env skb, op ≠ .packet env skb) :
    Ends (Follows online v window) (fun _ => True) (step plat p online ctx op) := by
  have hsame : ∀ {x : Except Fault (ℤ × RxContext C)},
      Ends (fun r => Reconfigured ctx r.2) (fun _ => True) x →
        Ends (Follows online v window) (fun _ => True) (Prod.snd <$> x) := fun hx =>
    (hx.mono (fun _ same => h.congr same.sameStats) fun _ he => he).map
  cases op with
  | createVq now kmalloc percpu klass => exact (h.createVq now kmalloc percpu klass).map
  | setVqWeight klass weight => exact hsame (isoSysSetVqWeight_reconfigured klass weight)
  | setVqRate klass rate => exact hsame (isoSysSetVqRate_reconfigured klass rate)
  | assocTxcVq old klass => exact h.congr (assoc_sameStats old klass ctx)
  | recomputeDev =>
    exact (Reconfigured.refl ctx).isoVqCalculateRates.mono (fun _ same => h.congr same.sameStats)
      fun _ he => he
  | packet env skb => exact absurd rfl (hop env skb)

/-! ### A packet is counted -/

theorem isoRxStatsUpdate_vqs {env : RxEnv C} {skb : Skb}
    (h : isoRxStatsUpdate p online env skb ctx = .ok ctx') :
    ctx'.vqs = ctx.vqs ∧ ctx'.vqBucket = ctx.vqBucket ∧ ctx'.brk = ctx.brk := by
  rw [isoRxStatsUpdate] at h
  split_ifs at h
  · obtain rfl := Except.ok.inj h
    exact ⟨rfl, rfl, rfl⟩
  · obtain ⟨rate, -, h⟩ := bind_eq_ok h
    obtain rfl := Except.ok.inj h
    exact ⟨rfl, rfl, rfl⟩

omit [DecidableEq C] in
theorem isoRxRcpUpdate_vqs {env : RxEnv C} (h : isoRxRcpUpdate p env ctx = .ok ctx') :
    ctx'.vqs = ctx.vqs ∧ ctx'.vqBucket = ctx.vqBucket ∧ ctx'.brk = ctx.brk := by
  rw [isoRxRcpUpdate] at h
  split_ifs at h
  · obtain rfl := Except.ok.inj h
    exact ⟨rfl, rfl, rfl⟩
  · obtain ⟨rate, -, h⟩ := bind_eq_ok h
    obtain rfl := Except.ok.inj h
    exact ⟨rfl, rfl, rfl⟩

/-- The VQ that the packet finds counts it, and nothing happens to the others. -/
theorem receive_eq_ok {env : RxEnv C} {skb : Skb} {found : Option ℕ}
    (h : receive plat p online env skb ctx = .ok (found, ctx')) :
    found = isoVqFind plat ctx (isoRxClassify skb) ∧ ctx'.vqBucket = ctx.vqBucket ∧
      ctx'.brk = ctx.brk ∧ (∀ w, found ≠ some w → ctx'.vqs w = ctx.vqs w) ∧
      ∀ w, found = some w →
        ∃ rcpRate, (ctx.vqs w).isoVqEnqueue p online rcpRate env skb = .ok (ctx'.vqs w) := by
  obtain ⟨ctx₁, hstats, h⟩ := bind_eq_ok h
  obtain ⟨ctx₂, hrcp, h⟩ := bind_eq_ok h
  obtain ⟨hvqs₁, hbucket₁, hbrk₁⟩ := isoRxStatsUpdate_vqs hstats
  obtain ⟨hvqs₂, hbucket₂, hbrk₂⟩ := isoRxRcpUpdate_vqs hrcp
  have hvqs := hvqs₂.trans hvqs₁
  have hbucket := hbucket₂.trans hbucket₁
  have hbrk := hbrk₂.trans hbrk₁
  have hfind : isoVqFind plat ctx₂ (isoRxClassify skb) =
      isoVqFind plat ctx (isoRxClassify skb) := by
    rw [isoVqFind, isoVqFind, hbucket, hvqs]
  rw [hfind] at h
  rcases hfound : isoVqFind plat ctx (isoRxClassify skb) with _ | u
  · rw [hfound] at h
    obtain ⟨rfl, rfl⟩ := Prod.mk.inj (Except.ok.inj h)
    exact ⟨rfl, hbucket, hbrk, fun w _ => by rw [hvqs],
      fun w hw => absurd hw.symm (Option.some_ne_none w)⟩
  · rw [hfound] at h
    obtain ⟨vq, henqueue, h⟩ := bind_eq_ok h
    obtain ⟨rfl, rfl⟩ := Prod.mk.inj (Except.ok.inj h)
    rw [hvqs] at henqueue
    refine ⟨rfl, hbucket, hbrk, fun w hw => ?_, fun w hw => ?_⟩
    · have hne : w ≠ u := fun heq => hw (heq ▸ rfl)
      simp only [modifyVq, Function.update_of_ne hne, hvqs]
    · obtain rfl := Option.some.inj hw
      exact ⟨ctx₂.rcpRate, by simpa [modifyVq] using henqueue⟩

/-- The window of the VQ at `v` after a packet. -/
def windowAfter (plat : Platform) (p : Params) (v : ℕ) (env : RxEnv C) (skb : Skb)
    (ctx : RxContext C) (window : List Skb) : List Skb :=
  if isoVqFind plat ctx (isoRxClassify skb) = some v then
    Vq.nextWindow p env skb (ctx.vqs v) window
  else window

theorem Follows.receive (h : ctx.Follows online v window) (hl : online.Nodup) {env : RxEnv C}
    (hc : env.cpu ∈ online) {skb : Skb} {found : Option ℕ}
    (hreceive : receive plat p online env skb ctx = .ok (found, ctx')) :
    ctx'.Follows online v (windowAfter plat p v env skb ctx window) := by
  obtain ⟨rfl, hbucket, hbrk, hothers, henqueue⟩ := receive_eq_ok hreceive
  constructor
  · rw [hbucket, hbrk]
    exact h.bucket_lt
  · intro hle
    rw [hbrk] at hle
    rw [windowAfter, if_neg, h.fresh hle]
    intro hfind
    exact absurd (h.bucket_lt _ v (mem_of_isoVqFind hfind)) (not_lt.2 hle)
  · intro hlt stats hstats
    rw [hbrk] at hlt
    rw [windowAfter]
    split_ifs with hfind
    · obtain ⟨rcpRate, henq⟩ := henqueue v hfind
      obtain ⟨old, hold, hnew, -⟩ := Vq.isoVqEnqueue_eq_ok henq
      obtain rfl := Option.some.inj (hnew.symm.trans hstats)
      exact (h.tallied hlt old hold).enqueue hl hc skb (ctx.vqs v)
    · rw [hothers v hfind] at hstats
      exact h.tallied hlt stats hstats

end RxContext

/-! ### The block that generates feedback -/

namespace Host

variable [DecidableEq C] {h h' : Host C}

/-- Feedback is due when the counter is zero, so that it is reset. -/
def FeedbackDue (p : Params) (env : RxEnv C) (skb : Skb) (st : Vq.Stats) : Prop :=
  u64OfInt (ktimeUsDelta env.genNow2 st.lastFeedbackGenTime) > p.isoFeedbackIntervalUs ∨
    u32 skb.size ≥ p.isoFeedbackIntervalBytes

/-- A counter that is zero is zero after feedback has been generated. -/
theorem autoGenerate_follows {env : RxEnv C} {skb : Skb} {vq vq' : Vq C}
    {stats stats' : C → Vq.Stats} {feedback : Option (Option Skb)}
    (htally : Vq.Tallied online window stats) (hstats : vq.percpuStats = some stats)
    (hzero : (stats env.cpu).rxSinceLastFeedback = 0) (hdue : FeedbackDue p env skb (stats env.cpu))
    (hgen : autoGenerate p env skb vq = .ok (feedback, vq'))
    (hstats' : vq'.percpuStats = some stats') :
    Vq.Tallied online window stats' := by
  have hdue' : u64OfInt (ktimeUsDelta env.genNow2 (stats env.cpu).lastFeedbackGenTime) >
        p.isoFeedbackIntervalUs ∨
      u32 ((stats env.cpu).rxSinceLastFeedback + skb.size) ≥ p.isoFeedbackIntervalBytes := by
    rw [hzero, Nat.zero_add]
    exact hdue
  rw [autoGenerate] at hgen
  simp only [hstats, if_pos hdue'] at hgen
  obtain ⟨-, rfl⟩ := Prod.mk.inj (Except.ok.inj hgen)
  obtain rfl := Option.some.inj hstats'
  exact htally.update env.cpu _ hzero.symm rfl

/-- The end of `iso_rx` for the VQ at `u`. -/
theorem finish_follows {env : RxEnv C} {u : ℕ} {verdict : IsoVerdict} {skb : Skb} {out : RxOutcome}
    (hf : h.rx.Follows online v window)
    (hspare : u = v → p.isoAutoGenerateFeedback ∧ verdict ≠ .drop →
      ∀ stats, (h.rx.vqs v).percpuStats = some stats →
        (stats env.cpu).rxSinceLastFeedback = 0 ∧ FeedbackDue p env skb (stats env.cpu))
    (hfinish : finish p env u verdict skb h = .ok (out, h')) : h'.rx.Follows online v window := by
  rw [finish] at hfinish
  split_ifs at hfinish with hauto
  · obtain ⟨⟨feedback, vq⟩, hgen, hend⟩ := bind_eq_ok hfinish
    obtain ⟨-, rfl⟩ := Prod.mk.inj (Except.ok.inj hend)
    refine ⟨hf.bucket_lt, hf.fresh, fun hlt stats hstats => ?_⟩
    simp only [RxContext.modifyVq, Function.update_apply] at hstats
    split_ifs at hstats with hv
    · subst hv
      rcases hold : (h.rx.vqs v).percpuStats with _ | old
      · rw [autoGenerate, hold] at hgen
        cases hgen
      · obtain ⟨hzero, hdue⟩ := hspare rfl hauto old hold
        exact autoGenerate_follows (hf.tallied hlt old hold) hold hzero hdue hgen hstats
    · exact hf.tallied hlt stats hstats
  · obtain ⟨-, rfl⟩ := Prod.mk.inj (Except.ok.inj hfinish)
    exact hf

/-- A feedback packet for which the class has a state, or gets one. -/
def Consumed (plat : Platform) (p : Params) (env : RxEnv C) (skb : Skb) (txc : TxClass C) : Prop :=
  isoIsGeneratedFeedback p skb = true ∧
    (txc.stateBucket (TxClass.stateHash plat (TxClass.peer plat skb true)) ≠ [] ∨
      (skb.ipId ≠ 0 ∧ env.writelock = true ∧ txc.preallocStateList ≠ []))

section

omit [DecidableEq C]

theorem Consumed.exists_state {env : RxEnv C} {skb : Skb} {txc : TxClass C}
    (hcons : Consumed plat p env skb txc) (now : ℕ) :
    ∃ i, (TxClass.isoStateGet plat now txc skb true (isoIsFeedbackMarked p skb) env.writelock).1 =
      .obj i := by
  obtain ⟨hfb, hstate⟩ := hcons
  have hip : skb.isIp = true := isIp_of_isoIsGeneratedFeedback hfb
  rw [TxClass.isoStateGet, if_neg (by simp [hip])]
  rcases hscan : TxClass.scanState plat txc (TxClass.peer plat skb true) with _ | i
  · have hempty := Klist.scan_eq_none_iff.1 hscan
    obtain ⟨hid, hlock, hfree⟩ := hstate.resolve_left (not_not.2 hempty)
    have hmarked := (isoIsFeedbackMarked_iff hfb).2 hid
    obtain ⟨i, rest, hlist⟩ := List.exists_cons_of_ne_nil hfree
    exact ⟨i, by simp [hscan, hmarked, hlock, hlist]⟩
  · exact ⟨i, by simp [hscan]⟩

theorem useState_drop {env : RxEnv C} {skb skb' : Skb} {txc txc' : TxClass C} {i : ℕ}
    {verdict : IsoVerdict} (hfb : isoIsGeneratedFeedback p skb = true)
    (huse : useState p env skb txc (.obj i) = .ok (verdict, skb', txc')) : verdict = .drop := by
  obtain ⟨txc₁, -, hend⟩ := bind_eq_ok huse
  rw [if_pos hfb] at hend
  exact (Prod.mk.inj (Except.ok.inj hend)).1.symm

theorem useState_size {env : RxEnv C} {skb skb' : Skb} {txc txc' : TxClass C} {state : Ptr}
    {verdict : IsoVerdict} (huse : useState p env skb txc state = .ok (verdict, skb', txc')) :
    skb'.size = skb.size := by
  cases state with
  | null =>
    obtain ⟨-, rfl, -⟩ := Except.ok.inj huse
    rfl
  | listHead => exact nomatch huse
  | obj i =>
    obtain ⟨txc₁, -, hend⟩ := bind_eq_ok huse
    obtain ⟨-, rfl, -⟩ := Except.ok.inj hend
    rfl

end

/-- A packet of the VQ at `v` does not get to the block that generates feedback, or it drains the VQ
and then feedback is due. -/
def Op.Spares (plat : Platform) (p : Params) (v : ℕ) (h : Host C) : Op C → Prop
  | .packet env skb =>
    h.rx.isoVqFind plat (isoRxClassify skb) = some v →
      p.isoAutoGenerateFeedback = false ∨
      (∀ k, h.tx.isoTxcFind plat (isoRxClassify skb) = some k →
        Consumed plat p env skb (h.tx.txcs k)) ∨
      (Vq.DrainDue p env (h.rx.vqs v) ∧ ∀ stats, (h.rx.vqs v).percpuStats = some stats →
        FeedbackDue p env skb (stats env.cpu))
  | _ => True

theorem isoRx_follows {env : RxEnv C} {skb : Skb} {out : RxOutcome}
    (hf : h.rx.Follows online v window) (hl : online.Nodup) (hc : env.cpu ∈ online)
    (hspare : Op.Spares plat p v h (.packet env skb))
    (hrx : isoRx plat p online env skb h = .ok (out, h')) :
    h'.rx.Follows online v (RxContext.windowAfter plat p v env skb h.rx window) := by
  obtain ⟨⟨found, rx⟩, hreceive, hrest⟩ := bind_eq_ok hrx
  have hfollow := hf.receive hl hc hreceive
  obtain ⟨hfound, -, -, -, henqueue⟩ := RxContext.receive_eq_ok hreceive
  rcases found with _ | u
  · obtain ⟨-, rfl⟩ := Prod.mk.inj (Except.ok.inj hrest)
    exact hfollow
  · rcases hk : h.tx.isoTxcFind plat (isoRxClassify skb) with _ | k
    · simp only [hk] at hrest
      obtain ⟨-, rfl⟩ := Prod.mk.inj (Except.ok.inj hrest)
      exact hfollow
    · rcases hstate : TxClass.isoStateGet plat env.stateNow (h.tx.txcs k) skb true
        (isoIsFeedbackMarked p skb) env.writelock with ⟨state, txc⟩
      simp only [hk, hstate] at hrest
      obtain ⟨⟨verdict, skb', txc'⟩, huse, hfinish⟩ := bind_eq_ok hrest
      refine finish_follows (h := ⟨rx, _⟩) hfollow ?_ hfinish
      rintro rfl ⟨hauto, hkept⟩ stats hstats
      rcases hspare hfound.symm with hoff | hcons | ⟨hdue, hfeedback⟩
      · rw [hoff] at hauto
        exact absurd hauto Bool.false_ne_true
      · obtain ⟨i, hi⟩ := (hcons k hk).exists_state env.stateNow
        rw [hstate] at hi
        obtain rfl : state = .obj i := hi
        exact absurd (useState_drop (hcons k hk).1 huse) hkept
      · obtain ⟨rcpRate, henq⟩ := henqueue u rfl
        obtain ⟨old, hold, hnew, -⟩ := Vq.isoVqEnqueue_eq_ok henq
        obtain rfl := Option.some.inj (hnew.symm.trans hstats)
        refine ⟨Vq.enqueued_rxSinceLastFeedback hc hdue skb old, ?_⟩
        rw [FeedbackDue, Vq.enqueued_lastFeedbackGenTime, useState_size huse]
        exact hfeedback old hold

end Host

/-! ### Watching one VQ -/

/-- A host, and the history of one of its VQs. -/
structure Watch (C : Type) where
  host : Host C
  /-- The packets that `iso_vq_enqueue` has been given since the last drain. -/
  window : List Skb
  /-- For each drain, the fraction that it computed and the packets since the drain before. -/
  log : List (ℕ × List Skb)

namespace Watch

variable [DecidableEq C]

/-- What is added to the log: something if the packet drains the VQ at `v`. -/
def entry (plat : Platform) (p : Params) (online : List C) (v : ℕ) (w : Watch C) (env : RxEnv C)
    (skb : Skb) : List (ℕ × List Skb) :=
  let vq := w.host.rx.vqs v
  if w.host.rx.isoVqFind plat (isoRxClassify skb) = some v ∧ vq.DrainDue p env then
    -- `iso_vq_enqueue` counts the packet first
    let vq := { vq with percpuStats := vq.percpuStats.map (Vq.counted env.cpu skb) }
    [(vq.drainFrac online, w.window ++ [skb])]
  else []

/-- An operation of the host, with the history of the VQ at `v`. -/
def step (plat : Platform) (p : Params) (online : List C) (v : ℕ) (w : Watch C) (op : Host.Op C) :
    Except Fault (Watch C) := do
  let (_, host) ← w.host.step plat p online op
  match op with
  | .packet env skb =>
    pure ⟨host, w.host.rx.windowAfter plat p v env skb w.window,
      w.log ++ w.entry plat p online v env skb⟩
  | _ => pure { w with host := host }

def init (p : Params) (statsNow rcpNow : ℕ) : Watch C := ⟨Host.init p statsNow rcpNow, [], []⟩

/-- Every fraction computed is that of the marked packets, in 1024ths and rounded down, where there
were fewer than `2 ^ 22` packets. -/
def Exact (w : Watch C) : Prop :=
  ∀ frac pkts, (frac, pkts) ∈ w.log → pkts.length < 2 ^ 22 →
    frac = 1024 * pkts.countP Vq.isMarked / pkts.length

/-- What a run keeps. -/
structure Sound (online : List C) (v : ℕ) (w : Watch C) : Prop where
  follows : w.host.rx.Follows online v w.window
  exact : w.Exact

variable {w w' : Watch C}

omit [DecidableEq C] in
theorem init_sound (online : List C) (v statsNow rcpNow : ℕ) :
    (init p statsNow rcpNow : Watch C).Sound online v where
  follows := ⟨fun _ _ hmem => absurd hmem List.not_mem_nil, fun _ => rfl,
    fun hlt => absurd hlt (Nat.not_lt_zero v)⟩
  exact := fun _ _ hmem => absurd hmem List.not_mem_nil

/-- An operation of the receive context, as one of the host. -/
theorem Sound.step_rx (hw : w.Sound online v) (op : RxContext.Op C)
    (hop : ∀ env skb, op ≠ .packet env skb) {r : Option Skb × Host C}
    (hr : (do let rx ← w.host.rx.step plat p online op; pure (none, { w.host with rx := rx })) =
      .ok r) :
    r.2.rx.Follows online v w.window := by
  obtain ⟨rx, hstep, hend⟩ := bind_eq_ok hr
  obtain rfl := Except.ok.inj hend
  exact (hw.follows.step hop).of_eq_ok hstep

/-- What an operation other than a packet does to the counters: nothing. -/
theorem Sound.step_host (hw : w.Sound online v) {op : Host.Op C}
    (hop : ∀ env skb, op ≠ .packet env skb) {r : Option Skb × Host C}
    (hr : w.host.step plat p online op = .ok r) :
    r.2.rx.Follows online v w.window := by
  cases op with
  | createTxc | setTxcWeight | setTxcRate | txClass =>
    obtain rfl := Except.ok.inj hr
    exact hw.follows
  | createVq now kmalloc percpu klass =>
    exact hw.step_rx (.createVq now kmalloc percpu klass) (by intro _ _ h; cases h) hr
  | setVqWeight klass weight =>
    exact hw.step_rx (.setVqWeight klass weight) (by intro _ _ h; cases h) hr
  | setVqRate klass rate =>
    exact hw.step_rx (.setVqRate klass rate) (by intro _ _ h; cases h) hr
  | assocTxcVq txclass vqclass =>
    obtain rfl := Except.ok.inj hr
    show (Host.isoSysAssocTxcVq plat txclass vqclass w.host).2.rx.Follows online v w.window
    rw [Host.isoSysAssocTxcVq]
    split
    · exact hw.follows.congr (RxContext.assoc_sameStats _ vqclass w.host.rx)
    · exact hw.follows
  | recomputeDev =>
    obtain ⟨rx, hrates, hend⟩ := bind_eq_ok hr
    obtain rfl := Except.ok.inj hend
    have same := (RxContext.Reconfigured.refl w.host.rx).isoVqCalculateRates.of_eq_ok hrates
    exact hw.follows.congr same.sameStats
  | packet env skb => exact absurd rfl (hop env skb)

/-- What a drain computes is exact. -/
theorem Sound.entry_exact (hw : w.Sound online v) (hl : online.Nodup) {env : RxEnv C}
    (hc : env.cpu ∈ online) {skb : Skb} {stats : C → Vq.Stats}
    (hstats : (w.host.rx.vqs v).percpuStats = some stats) {frac : ℕ} {pkts : List Skb}
    (hmem : (frac, pkts) ∈ w.entry plat p online v env skb) (hlt : pkts.length < 2 ^ 22) :
    frac = 1024 * pkts.countP Vq.isMarked / pkts.length := by
  rw [entry] at hmem
  split_ifs at hmem with hdrain
  · obtain ⟨rfl, rfl⟩ := Prod.mk.inj (List.mem_singleton.1 hmem)
    have hbrk := hw.follows.bucket_lt _ v (RxContext.mem_of_isoVqFind hdrain.1)
    have hcount := (hw.follows.tallied hbrk stats hstats).count hl hc skb
    exact hcount.drainFrac_eq hlt (by rw [hstats]; rfl)
  · exact absurd hmem List.not_mem_nil

/-- A VQ that a packet has found without a fault has counters. -/
theorem exists_stats {env : RxEnv C} {skb : Skb} {r : RxOutcome × Host C}
    (hfind : w.host.rx.isoVqFind plat (isoRxClassify skb) = some v)
    (hrx : Host.isoRx plat p online env skb w.host = .ok r) :
    ∃ stats, (w.host.rx.vqs v).percpuStats = some stats := by
  obtain ⟨⟨found, rx⟩, hreceive, -⟩ := bind_eq_ok hrx
  obtain ⟨hfound, -, -, -, henqueue⟩ := RxContext.receive_eq_ok hreceive
  obtain ⟨rcpRate, henq⟩ := henqueue v (hfound.trans hfind)
  obtain ⟨stats, hstats, -⟩ := Vq.isoVqEnqueue_eq_ok henq
  exact ⟨stats, hstats⟩

theorem step_eq_ok {op : Host.Op C} (hop : ∀ env skb, op ≠ .packet env skb)
    (hstep : w.step plat p online v op = .ok w') :
    ∃ r, w.host.step plat p online op = .ok r ∧ w' = { w with host := r.2 } := by
  obtain ⟨⟨out, host⟩, hr, hend⟩ := bind_eq_ok hstep
  dsimp only at hend
  split at hend
  · exact absurd rfl (hop _ _)
  · exact ⟨(out, host), hr, (Except.ok.inj hend).symm⟩

theorem Sound.packet (hw : w.Sound online v) (hl : online.Nodup) {env : RxEnv C}
    (hc : env.cpu ∈ online) {skb : Skb} (hop : Host.Op.Spares plat p v w.host (.packet env skb))
    (hstep : w.step plat p online v (.packet env skb) = .ok w') : w'.Sound online v := by
  obtain ⟨r, hr, hend⟩ := bind_eq_ok hstep
  obtain rfl := Except.ok.inj hend
  obtain ⟨⟨out, host⟩, hrx, hout⟩ := bind_eq_ok hr
  obtain rfl := Except.ok.inj hout
  refine ⟨Host.isoRx_follows hw.follows hl hc hop hrx, fun frac pkts hmem hlt => ?_⟩
  rcases List.mem_append.1 hmem with hold | hnew
  · exact hw.exact frac pkts hold hlt
  · by_cases hfind : w.host.rx.isoVqFind plat (isoRxClassify skb) = some v
    · obtain ⟨stats, hstats⟩ := exists_stats hfind hrx
      exact hw.entry_exact hl hc hstats hnew hlt
    · rw [entry, if_neg fun h => hfind h.1] at hnew
      exact absurd hnew List.not_mem_nil

theorem Sound.step (hw : w.Sound online v) (hl : online.Nodup) (hall : ∀ c, c ∈ online)
    {op : Host.Op C} (hop : op.Spares plat p v w.host)
    (hstep : w.step plat p online v op = .ok w') :
    w'.Sound online v := by
  by_cases hpacket : ∃ env skb, op = .packet env skb
  · obtain ⟨env, skb, rfl⟩ := hpacket
    exact hw.packet hl (hall env.cpu) hop hstep
  · have hother : ∀ env skb, op ≠ .packet env skb := fun env skb heq => hpacket ⟨env, skb, heq⟩
    obtain ⟨r, hr, rfl⟩ := step_eq_ok hother hstep
    exact ⟨hw.step_host hother hr, hw.exact⟩

/-- In a run in which no packet of the VQ uses its counter for feedback, every drain computes the
fraction of marked packets. -/
theorem run_exact (plat : Platform) {p : Params} {online : List C} (hl : online.Nodup)
    (hall : ∀ c, c ∈ online) (v statsNow rcpNow : ℕ) {ops : List (Host.Op C)}
    (hops : GuardedE (step plat p online v) (fun w op => op.Spares plat p v w.host)
      (init p statsNow rcpNow) ops)
    (hrun : runE (step plat p online v) (init p statsNow rcpNow) ops = .ok w) : w.Exact := by
  have hends : Ends (Sound online v) (fun _ => True)
      (runE (step plat p online v) (init p statsNow rcpNow) ops) :=
    hops.ends (fun _ _ hop hw => ends_of_ok fun _ hstep => hw.step hl hall hop hstep)
      (init_sound online v statsNow rcpNow)
  exact (hends.of_eq_ok hrun).exact

/-- A packet to the class of the VQ, marked or not. -/
def ecnPacket (marked : Bool) : Skb :=
  .datagram 0 1500 Host.addrA Host.addrB 6 (if marked then 3 else 2) 0

/-- Of two packets one is marked.  The VQ has no class of the same name, so no feedback is
generated. -/
theorem run_exact_half :
    ∃ w, runE (step .x86 {} [()] 0) (init {} 0 0) [.createVq 0 true true Host.addrB,
        .packet (Host.envAt 50 true) (ecnPacket true),
        .packet (Host.envAt 300 true) (ecnPacket false)] = .ok w ∧
      w.log = [(512, [ecnPacket true, ecnPacket false])] ∧ w.Exact := by
  have hrun := eq_ok_endOr (init {} 0 0) (x := runE (step .x86 {} [()] 0) (init {} 0 0)
    [.createVq 0 true true Host.addrB, .packet (Host.envAt 50 true) (ecnPacket true),
      .packet (Host.envAt 300 true) (ecnPacket false)]) (by decide +kernel)
  refine ⟨_, hrun, by decide +kernel, run_exact .x86 (by decide) (by decide) 0 0 0 ?_ hrun⟩
  refine guardedE_cons (init {} 0 0) trivial ?_
  refine guardedE_cons (init {} 0 0) (fun _ => Or.inr (Or.inl fun k hk => ?_)) ?_
  · exact nomatch hk.symm.trans (by decide +kernel : _ = none)
  · refine guardedE_cons (init {} 0 0) (fun _ => Or.inr (Or.inl fun k hk => ?_)) trivial
    exact nomatch hk.symm.trans (by decide +kernel : _ = none)

/-- An hour, in microseconds. -/
def anHour : ℕ := 3600 * 10 ^ 6

/-- A class and a VQ are created an hour after the machine was started, and three packets arrive. -/
def markedPackets : List (Host.Op Unit) :=
  [.createTxc (anHour * 1000) true [] Host.addrB, .createVq (anHour * 1000) true true Host.addrB,
    .packet (Host.envAt (anHour + 50) true) (ecnPacket true),
    .packet (Host.envAt (anHour + 100) true) (ecnPacket true),
    .packet (Host.envAt (anHour + 300) true) (ecnPacket true)]

/-- All packets are marked.  But feedback is due for the first, which clears the counter of packets,
and the second has added its 1514 bytes to it when the third drains the VQ. -/
theorem run_not_exact :
    ∃ w, runE (step .x86 {} [()] 0) (init {} (anHour * 1000) (anHour * 1000))
      markedPackets = .ok w ∧
      w.log = [(2, [ecnPacket true, ecnPacket true, ecnPacket true])] ∧ ¬ w.Exact := by
  have hrun := eq_ok_endOr (init {} 0 0) (x := runE (step .x86 {} [()] 0)
    (init {} (anHour * 1000) (anHour * 1000)) markedPackets) (by decide +kernel)
  have hlog : (endOr (init {} 0 0) (runE (step .x86 {} [()] 0)
      (init {} (anHour * 1000) (anHour * 1000)) markedPackets)).log =
      [(2, [ecnPacket true, ecnPacket true, ecnPacket true])] := by decide +kernel
  refine ⟨_, hrun, hlog, fun hexact => ?_⟩
  have hfrac := hexact 2 [ecnPacket true, ecnPacket true, ecnPacket true]
    (by rw [hlog]; exact List.mem_singleton_self _) (by decide)
  exact absurd hfrac (by decide)

end Watch

end EyeQ
