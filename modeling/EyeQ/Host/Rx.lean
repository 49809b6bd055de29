import EyeQ.Rx.Context
import EyeQ.Tx.Context

/-!
# A host: `iso_rx` and feedback packets

A host has a receive context and a tx context for its device.  `isoRx` is `iso_rx`: after
`RxContext.receive` it looks up the state of the packet's source, installs the rate that a feedback
packet carries, and generates feedback of its own.

The rate travels in the identification field of the IPv4 header, which is written and read without
conversion: two hosts of the same byte order.

`RxOutcome` is what one call does to the packet, and whether it calls `iso_generate_feedback`.
-/

namespace EyeQ

/-! ### Feedback packets -/

/-- `iso_is_generated_feedback`. -/
def isoIsGeneratedFeedback (p : Params) (skb : Skb) : Bool :=
  skb.isIp && skb.protocol.toNat == p.isoFeedbackPacketIpproto

/-- `skb_has_feedback`. -/
def skbHasFeedback (p : Params) (skb : Skb) : ℕ :=
  if isoIsGeneratedFeedback p skb then skb.ipId.toNat else 0

theorem skbHasFeedback_lt (p : Params) (skb : Skb) : skbHasFeedback p skb < 2 ^ 16 := by
  unfold skbHasFeedback
  split_ifs
  · exact skb.ipId.toNat_lt
  · decide

/-- `iso_is_feedback_marked`. -/
def isoIsFeedbackMarked (p : Params) (skb : Skb) : Bool := skbHasFeedback p skb ≠ 0

/-- `iso_generate_feedback`: the packet given to `skb_xmit`, in the buffer `alloc`; the other host
gets it without the link header (`Skb.pulled`).  Only the low 16 bits of `bit` and the low 8 bits of
the protocol fit. -/
def isoGenerateFeedback (p : Params) (alloc : Option ℕ) (bit : ℤ) (pkt : Skb) : Option Skb :=
  if pkt.isIp then
    alloc.map fun ptr =>
      { ptr := ptr
        len := isoFeedbackPacketSize
        isIp := true
        saddr := pkt.daddr
        daddr := pkt.saddr
        protocol := UInt8.ofNat p.isoFeedbackPacketIpproto
        tos := if bit ≠ 0 then 0x2 ||| 0x8 else 0x2
        ipId := UInt16.ofNat (u64OfInt bit)
        len_le := by decide }
  else none

/-! ### `iso_rx` -/

structure Host (C : Type) where
  rx : RxContext C
  tx : TxContext C

/-- The outcome of `iso_rx`. -/
structure RxOutcome where
  verdict : IsoVerdict
  /-- The packet as it is passed on. -/
  skb : Skb
  /-- `none` if `iso_generate_feedback` is not called, and otherwise what it sends. -/
  feedback : Option (Option Skb)

namespace Host

variable {C : Type}

/-- Install a rate in the limiter of state `i`. -/
def installRate (now rate i : ℕ) (txc : TxClass C) : Except Fault (TxClass C) :=
  match (txc.state i).rl with
  | .obj j =>
    let rl := { txc.rls j with rate := rate, lastRateUpdateTime := now }
    let state := { txc.state i with lastRfairChangeTime := now }
    .ok { txc with
      rls := Function.update txc.rls j rl
      state := Function.update txc.state i state }
  | _ => .error .wild

/-- The interval guard of `iso_rx` and the `spin_trylock` behind it.  The time is checked again
under the lock, with the same reading. -/
def RateDue (p : Params) (env : RxEnv C) (st : PerDestState) : Prop :=
  u64OfInt (ktimeUsDelta env.rateNow st.lastRfairChangeTime) ≥ p.isoRfairDecreaseIntervalUs ∧
    env.rcLock = true

instance (p : Params) (env : RxEnv C) (st : PerDestState) : Decidable (RateDue p env st) :=
  inferInstanceAs (Decidable (_ ∧ _))

/-- Install the rate that the packet carries, if it carries one and it is time to. -/
def installIfDue (p : Params) (env : RxEnv C) (skb : Skb) (i : ℕ) (txc : TxClass C) :
    Except Fault (TxClass C) :=
  let rate := skbHasFeedback p skb
  if (p.isoVqDrainRateMbps ≤ p.isoMaxTxRate ∧ rate ≠ 0) ∧ RateDue p env (txc.state i) then
    installRate env.rateNow rate i txc
  else pure txc

/-- What `iso_rx` does with the state it has looked up: the verdict, the packet and the class. -/
def useState (p : Params) (env : RxEnv C) (skb : Skb) (txc : TxClass C) :
    Ptr → Except Fault (IsoVerdict × Skb × TxClass C)
  | .null => .ok (.success, skb, txc)
  | .listHead => .error .wild
  | .obj i => do
    let txc ← installIfDue p env skb i txc
    -- the only place where the verdict of a feedback packet becomes "drop"
    let verdict := if isoIsGeneratedFeedback p skb then .drop else .success
    pure (verdict, skb.isoClearEcn, txc)

variable [DecidableEq C]

/-- The block of `iso_rx` that generates feedback: what is generated, and the VQ. -/
def autoGenerate (p : Params) (env : RxEnv C) (skb : Skb) (vq : Vq C) :
    Except Fault (Option (Option Skb) × Vq C) :=
  match vq.percpuStats with
  | none => .error .wild
  | some stats =>
    let st := stats env.cpu
    let dt := u64OfInt (ktimeUsDelta env.genNow2 st.lastFeedbackGenTime)
    -- bytes are added to the counter of packets that `iso_vq_drain` reads
    let since := u32 (st.rxSinceLastFeedback + skb.size)
    if dt > p.isoFeedbackIntervalUs ∨ since ≥ p.isoFeedbackIntervalBytes then
      let st := { st with
        lastFeedbackGenTime := env.genNow
        rxSinceLastFeedback := 0
        networkMarked := 0 }
      .ok (some (isoGenerateFeedback p env.alloc vq.isoVqOverLimits skb),
        { vq with percpuStats := some (Function.update stats env.cpu st) })
    else
      let st := { st with rxSinceLastFeedback := since }
      .ok (none, { vq with percpuStats := some (Function.update stats env.cpu st) })

/-- The end of `iso_rx`, for the VQ at `v`. -/
def finish (p : Params) (env : RxEnv C) (v : ℕ) (verdict : IsoVerdict) (skb : Skb) (h : Host C) :
    Except Fault (RxOutcome × Host C) :=
  if p.isoAutoGenerateFeedback ∧ verdict ≠ .drop then do
    let (feedback, vq) ← autoGenerate p env skb (h.rx.vqs v)
    pure (⟨verdict, skb, feedback⟩, { h with rx := h.rx.modifyVq v fun _ => vq })
  else pure (⟨verdict, skb, none⟩, h)

/-- `iso_rx`. -/
def isoRx (plat : Platform) (p : Params) (online : List C) (env : RxEnv C) (skb : Skb)
    (h : Host C) : Except Fault (RxOutcome × Host C) := do
  let (vq, rx) ← h.rx.receive plat p online env skb
  match vq, h.tx.isoTxcFind plat (isoRxClassify skb) with
  | some v, some k => do
    let (state, txc) := TxClass.isoStateGet plat env.stateNow (h.tx.txcs k) skb true
      (isoIsFeedbackMarked p skb) env.writelock
    let (verdict, skb, txc) ← useState p env skb txc state
    finish p env v verdict skb ⟨rx, h.tx.modifyTxc k fun _ => txc⟩
  -- the label `accept`
  | _, _ => pure (⟨.success, skb, none⟩, ⟨rx, h.tx⟩)

/-! ### Runs of a host -/

/-- `iso_sys_assoc_txc_vq`, for the two classes that its argument names. -/
def isoSysAssocTxcVq (plat : Platform) (txclass vqclass : UInt32) (h : Host C) : ℤ × Host C :=
  match h.tx.isoTxcFind plat txclass, h.rx.isoVqFind plat vqclass with
  | some k, some v =>
    (0, ⟨h.rx.assoc plat (h.tx.txcs k).vq vqclass, h.tx.assoc plat txclass (some v)⟩)
  | _, _ => (-einval, h)

/-- What happens on a host: its configuration, what its classes do when they transmit (`txClass`),
and the packets it receives. -/
inductive Op (C : Type) where
  | createTxc (now : ℕ) (kmalloc : Bool) (rounds : List Bool) (klass : UInt32)
  | setTxcWeight (klass : UInt32) (weight : ℤ)
  | setTxcRate (klass : UInt32) (rate : ℤ)
  | createVq (now : ℕ) (kmalloc percpu : Bool) (klass : UInt32)
  | setVqWeight (klass : UInt32) (weight : ℤ)
  | setVqRate (klass : UInt32) (rate : ℤ)
  | assocTxcVq (txclass vqclass : UInt32)
  | recomputeDev
  | txClass (k : ℕ) (op : TxClass.Op C)
  | packet (env : RxEnv C) (skb : Skb)

/-- One operation: the host after it, and the packet it sends in answer. -/
def step (plat : Platform) (p : Params) (online : List C) (h : Host C) :
    Op C → Except Fault (Option Skb × Host C)
  | .createTxc now kmalloc rounds klass =>
    pure (none, { h with tx := h.tx.step plat p (.createTxc now kmalloc rounds klass) })
  | .setTxcWeight klass weight =>
    pure (none, { h with tx := h.tx.step plat p (.setTxcWeight klass weight) })
  | .setTxcRate klass rate =>
    pure (none, { h with tx := h.tx.step plat p (.setTxcRate klass rate) })
  | .createVq now kmalloc percpu klass => do
    let rx ← h.rx.step plat p online (.createVq now kmalloc percpu klass)
    pure (none, { h with rx := rx })
  | .setVqWeight klass weight => do
    let rx ← h.rx.step plat p online (.setVqWeight klass weight)
    pure (none, { h with rx := rx })
  | .setVqRate klass rate => do
    let rx ← h.rx.step plat p online (.setVqRate klass rate)
    pure (none, { h with rx := rx })
  | .assocTxcVq txclass vqclass => pure (none, (isoSysAssocTxcVq plat txclass vqclass h).2)
  | .recomputeDev => do
    let rx ← h.rx.isoVqCalculateRates p
    pure (none, ⟨rx, h.tx.isoTxcRecomputeRates p⟩)
  | .txClass k op =>
    pure (none, { h with tx := h.tx.modifyTxc k fun txc => txc.step plat p op })
  | .packet env skb => do
    let (out, h) ← isoRx plat p online env skb h
    pure (out.feedback.join, h)

/-- A host after `iso_tx_init` and `iso_rx_init`. -/
def init (p : Params) (statsNow rcpNow : ℕ) : Host C :=
  ⟨RxContext.init p statsNow rcpNow, TxContext.init p⟩

end Host

end EyeQ
