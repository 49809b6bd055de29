import EyeQ.Host.Equiv.Rx

/-!
# Feedback between two hosts

Two properties that feedback is expected to have, and when it has them, for a VQ that is ready for
the feedback packet (for any other the host faults).

* `isoRx_installs_iff`: the rate that a host installs is the one that its peer advertised precisely
  when that rate is below `2^16`.  The packet has 16 bits for it
  (`skbHasFeedback_isoGenerateFeedback`), and a VQ of weight 8 or more can advertise more.
* `isoRx_consumes_iff`: a feedback packet is consumed, and answered by no feedback, precisely when
  the class has a state on the hash chain of its source or creates one.  Otherwise the packet goes
  on to the stack and may be answered by a feedback packet, which the peer may answer in the same
  way.

Besides, `isoRx_ecn_iff`: the marks of the network are not cleared before a packet goes on to the
stack.
-/

namespace EyeQ.Host

open Machine

variable {C : Type} [DecidableEq C] {plat : Platform} {p : Params} {h : Host C}

/-! ### The rate in a packet -/

theorem isIp_of_isoIsGeneratedFeedback {skb : Skb} (h : isoIsGeneratedFeedback p skb = true) :
    skb.isIp = true := by
  simp only [isoIsGeneratedFeedback, Bool.and_eq_true] at h
  exact h.1

omit [DecidableEq C] in
/-- A packet carries the low 16 bits of a rate. -/
theorem skbHasFeedback_isoGenerateFeedback (hp : p.Sane) {alloc : Option ℕ} {vq : Vq C}
    {pkt fb : Skb} (hfb : isoGenerateFeedback p alloc vq.isoVqOverLimits pkt = some fb) :
    isoIsGeneratedFeedback p fb = true ∧ skbHasFeedback p fb = vq.feedbackRate % 2 ^ 16 := by
  have hip : pkt.isIp := by
    by_contra hip
    rw [isoGenerateFeedback, if_neg hip] at hfb
    exact nomatch hfb
  rw [isoGenerateFeedback, if_pos hip, Option.map_eq_some_iff] at hfb
  obtain ⟨ptr, -, rfl⟩ := hfb
  have hproto : (UInt8.ofNat p.isoFeedbackPacketIpproto).toNat = p.isoFeedbackPacketIpproto := by
    rw [UInt8.toNat_ofNat']
    exact Nat.mod_eq_of_lt hp.ipproto_lt
  have hgenerated : ∀ fb : Skb, fb.isIp = true →
      fb.protocol = UInt8.ofNat p.isoFeedbackPacketIpproto →
      isoIsGeneratedFeedback p fb = true := by
    intro fb hip hprot
    simp [isoIsGeneratedFeedback, hip, hprot, hproto]
  refine ⟨hgenerated _ rfl rfl, ?_⟩
  rw [skbHasFeedback, if_pos (hgenerated _ rfl rfl)]
  -- from `u64` to `int` and to 16 bits: the low 16 bits are kept on the way
  show (UInt16.ofNat (u64OfInt (s32 vq.feedbackRate))).toNat = _
  rw [UInt16.toNat_ofNat', u64OfInt, s32, Int.bmod]
  omega

/-! ### The advertised rate and the installed rate -/

/-- A feedback packet for which there is a state is consumed.  If the interval has passed, the rate
it carries is installed. -/
theorem isoRx_of_state (hp : p.Sane) (hs : h.Sound plat p) (online : List C) {env : RxEnv C}
    {skb : Skb} (hfb : isoIsGeneratedFeedback p skb = true) {v k i : ℕ}
    (hv : h.rx.isoVqFind plat (isoRxClassify skb) = some v) (hready : (h.rx.vqs v).Ready p env)
    (hk : h.tx.isoTxcFind plat (isoRxClassify skb) = some k) {txc : TxClass C}
    (hstate : TxClass.isoStateGet plat env.stateNow (h.tx.txcs k) skb true
      (isoIsFeedbackMarked p skb) env.writelock = (.obj i, txc)) :
    ∃ out h', isoRx plat p online env skb h = .ok (out, h') ∧ out.verdict = .drop ∧
      out.feedback = none ∧
      (skbHasFeedback p skb ≠ 0 → RateDue p env (txc.state i) → ∀ j, (txc.state i).rl = .obj j →
        ((h'.tx.txcs k).rls j).rate = skbHasFeedback p skb) := by
  have hip : skb.isIp := isIp_of_isoIsGeneratedFeedback hfb
  obtain ⟨rx, hrx, hst, heq⟩ := isoRx_eq hp hs online hv hready hk
  have hgot := (hs.tx k).isoStateGet_got env.stateNow hip true (isoIsFeedbackMarked p skb)
    env.writelock
  rw [hstate] at heq hgot
  have hpooled : txc.Pooled plat := hgot.pooled (hs.tx k)
  obtain ⟨b, hi⟩ := hgot.exists_mem
  obtain ⟨txc', huse, hsame, hrate⟩ := useState_obj (p := p) hpooled hi env skb
  simp only [huse, if_pos hfb] at heq
  have htx : (h.tx.modifyTxc k fun _ => txc').Pooled plat :=
    hs.tx.modifyTxc k (hpooled.congr hsame)
  obtain ⟨⟨out, h'⟩, hfinish, hverdict, hnone, -, htx', -⟩ :=
    (finish_ends (h := ⟨rx, h.tx.modifyTxc k fun _ => txc'⟩) ⟨hrx, htx⟩ hst env .drop
      skb.isoClearEcn).exists_ok
  refine ⟨out, h', heq.trans hfinish, hverdict, hnone rfl, fun hne hdue j hj => ?_⟩
  simp only at htx'
  rw [htx', TxContext.modifyTxc]
  simp only [Function.update_self]
  exact hrate ⟨⟨hp.drainRate_le, hne⟩, hdue⟩ j hj

/-- **The advertised rate is the installed rate, below `2^16`.**  A reachable host receives `pkt`
and answers with the feedback packet `fb`; the other host, in any reachable state, receives it,
finds a state for it and the interval has passed.  Then the other host decodes and installs the
feedback rate of the VQ, precisely if that rate is below `2^16` and its own VQ is ready for the
packet. -/
theorem isoRx_installs_iff (hp : p.Sane) {online : List C} {t t' : Bool → ℕ × ℕ}
    {ops ops' : List (Net.Op C)} {net net' : Net C}
    (hrun : Net.runFrom plat p online t ops = .ok net)
    (hrun' : Net.runFrom plat p online t' ops' = .ok net') {side : Bool} {env env' : RxEnv C}
    {pkt fb : Skb} {v : ℕ} (hv : (net.host side).rx.isoVqFind plat (isoRxClassify pkt) = some v)
    {out : RxOutcome} {h : Host C}
    (hrx : isoRx plat p online env pkt (net.host side) = .ok (out, h))
    (hfb : out.feedback = some (some fb)) {v' k i j : ℕ}
    (hv' : (net'.host !side).rx.isoVqFind plat (isoRxClassify fb.pulled) = some v')
    (hk : (net'.host !side).tx.isoTxcFind plat (isoRxClassify fb.pulled) = some k) {txc : TxClass C}
    (hstate : TxClass.isoStateGet plat env'.stateNow ((net'.host !side).tx.txcs k) fb.pulled
      true (isoIsFeedbackMarked p fb.pulled) env'.writelock = (.obj i, txc))
    (hrl : (txc.state i).rl = .obj j) (hdue : RateDue p env' (txc.state i)) :
    (∃ out' h', isoRx plat p online env' fb.pulled (net'.host !side) = .ok (out', h') ∧
        skbHasFeedback p fb.pulled = (h.rx.vqs v).feedbackRate ∧
        ((h'.tx.txcs k).rls j).rate = (h.rx.vqs v).feedbackRate) ↔
      ((net'.host !side).rx.vqs v').Ready p env' ∧ (h.rx.vqs v).feedbackRate < 2 ^ 16 := by
  have hends := isoRx_ends hp (Net.runFrom_sound hp hrun side) online env pkt
  rw [hrx] at hends
  obtain ⟨pkt', hgen⟩ := hends.2 v hv _ hfb
  have hcarries := skbHasFeedback_isoGenerateFeedback hp hgen.symm
  obtain ⟨hgenerated, hcarried⟩ : isoIsGeneratedFeedback p fb.pulled = true ∧
      skbHasFeedback p fb.pulled = (h.rx.vqs v).feedbackRate % 2 ^ 16 := hcarries
  -- a rate of 0 would read as no feedback, but the rate is never 0
  have hpos : 0 < (h.rx.vqs v).feedbackRate :=
    hp.minRfair_pos.trans_le (hends.1.rx.vq v).feedbackRate_ge
  have hs' := Net.runFrom_sound hp hrun' !side
  constructor
  · rintro ⟨out', h', hrx', hdecoded, -⟩
    refine ⟨?_, ?_⟩
    · by_contra hready
      exact (isoRx_fails hp hs' online hv' hready).ne_ok _ hrx'
    · rw [← hdecoded, hcarried]
      exact Nat.mod_lt _ (by decide)
  · rintro ⟨hready, hlt⟩
    obtain ⟨out', h', hrx', -, -, hinstalled⟩ :=
      isoRx_of_state hp hs' online hgenerated hv' hready hk hstate
    have hsame : skbHasFeedback p fb.pulled = (h.rx.vqs v).feedbackRate := by
      rw [hcarried, Nat.mod_eq_of_lt hlt]
    refine ⟨out', h', hrx', hsame, ?_⟩
    rw [hinstalled (by omega) hdue j hrl, hsame]

/-! ### An exchange

The class 10.0.0.1 on one host sends to the class 10.0.0.2 on the other, which answers with
feedback. -/

def addrA : UInt32 := 0x0100000a

def addrB : UInt32 := 0x0200000a

/-- The environment of a packet that arrives at time `t`, in microseconds. -/
def envAt (t : ℕ) (writelock : Bool) : RxEnv Unit :=
  let now := t * 1000
  ⟨(), now, true, now, true, now, true, now, now, writelock, now, true, now, now, some 0⟩

def dataPacket : Skb := .datagram 0 1500 addrA addrB 6 0 0

/-- Both classes are set up, and the sender has a state for its peer.  The VQ of the receiver has
the given weight and has seen `n` packets, one every 300 µs. -/
def exchange (weight : ℤ) (n : ℕ) : List (Net.Op Unit) :=
  [.host false (.createTxc 0 true [true] addrA), .host false (.createVq 0 true true addrA),
    .host false (.txClass 0 (.stateGet 0 dataPacket false true true)),
    .host true (.createTxc 0 true [true] addrB), .host true (.createVq 0 true true addrB),
    .host true (.setVqWeight addrB weight)] ++
  (List.range n).map fun i => .host true (.packet (envAt ((i + 1) * 300) true) dataPacket)

def exchangeNet (weight : ℤ) (n : ℕ) : Net Unit :=
  endOr (Net.init {} fun _ => (0, 0))
    (Net.runFrom Platform.x86 {} [()] (fun _ => (0, 0)) (exchange weight n))

/-- The receiver's answer to one more packet, 10 ms after the beginning. -/
def answer (weight : ℤ) (n : ℕ) : RxOutcome × Host Unit :=
  endOr (⟨.success, dataPacket, none⟩, (exchangeNet weight n).host true)
    (isoRx Platform.x86 {} [()] (envAt 10000 true) dataPacket ((exchangeNet weight n).host true))

def answerPacket (weight : ℤ) (n : ℕ) : Skb := (answer weight n).1.feedback.join.getD dataPacket

/-- The sender on receiving that answer. -/
def installed (weight : ℤ) (n : ℕ) : Except Fault (RxOutcome × Host Unit) :=
  isoRx Platform.x86 {} [()] (envAt 10000 true) (answerPacket weight n).pulled
    ((exchangeNet weight n).host false)

/-- What the sender finds when it looks up the receiver. -/
def stateFound (weight : ℤ) (n : ℕ) : Ptr × TxClass Unit :=
  TxClass.isoStateGet Platform.x86 (envAt 10000 true).stateNow
    (((exchangeNet weight n).host false).tx.txcs 0) (answerPacket weight n).pulled true
    (isoIsFeedbackMarked {} (answerPacket weight n).pulled) (envAt 10000 true).writelock

theorem isoRx_installs_iff_exchange :
    ∃ out h, installed 1 1 = .ok (out, h) ∧ ((h.tx.txcs 0).rls 0).rate = 22 := by
  have hrun : Net.runFrom Platform.x86 {} [()] (fun _ => (0, 0)) (exchange 1 1) =
      .ok (exchangeNet 1 1) := eq_ok_endOr _ (by decide +kernel)
  have hrx : isoRx Platform.x86 {} [()] (envAt 10000 true) dataPacket
      ((exchangeNet 1 1).host true) = .ok ((answer 1 1).1, (answer 1 1).2) := by
    rw [Prod.mk.eta]
    exact eq_ok_endOr _ (by decide +kernel)
  have hvq : ((exchangeNet 1 1).host false).rx.isoVqFind Platform.x86
      (isoRxClassify (answerPacket 1 1).pulled) = some 0 := by decide +kernel
  have hgot : TxClass.isoStateGet Platform.x86 (envAt 10000 true).stateNow
      (((exchangeNet 1 1).host false).tx.txcs 0) (answerPacket 1 1).pulled true
      (isoIsFeedbackMarked {} (answerPacket 1 1).pulled) (envAt 10000 true).writelock =
        (.obj 0, (stateFound 1 1).2) := Prod.ext (by decide +kernel) rfl
  have hiff := isoRx_installs_iff (v := 0) (k := 0) (i := 0) (j := 0) Params.sane_default hrun hrun
    (by decide +kernel) hrx (by decide +kernel) hvq (by decide +kernel) hgot (by decide +kernel)
    (by decide +kernel)
  have hready : (((exchangeNet 1 1).host false).rx.vqs 0).Ready {} (envAt 10000 true) :=
    ⟨by decide +kernel, fun _ => by decide +kernel⟩
  have hrate : ((answer 1 1).2.rx.vqs 0).feedbackRate = 22 := by decide +kernel
  rw [hrate] at hiff
  obtain ⟨out, h, hok, -, hinstalled⟩ := hiff.2 ⟨hready, by decide⟩
  exact ⟨out, h, hok, hinstalled⟩

/-- A VQ of weight 8 advertises 72000 Mb/s; the sender decodes and installs 6464 Mb/s. -/
theorem installed_truncated :
    Net.runFrom Platform.x86 {} [()] (fun _ => (0, 0)) (exchange 8 23) = .ok (exchangeNet 8 23) ∧
      isoRx Platform.x86 {} [()] (envAt 10000 true) dataPacket ((exchangeNet 8 23).host true) =
        .ok (answer 8 23) ∧
      ((answer 8 23).2.rx.vqs 0).feedbackRate = 72000 ∧
      skbHasFeedback {} (answerPacket 8 23).pulled = 6464 ∧
      (installed 8 23).map (fun r => ((r.2.tx.txcs 0).rls 0).rate) = .ok 6464 := by
  refine ⟨?_, ?_, ?_⟩
  · exact eq_ok_endOr _ (by decide +kernel)
  · exact eq_ok_endOr _ (by decide +kernel)
  · decide +kernel

/-! ### Feedback begets feedback -/

theorem isoIsFeedbackMarked_iff {skb : Skb} (hfb : isoIsGeneratedFeedback p skb = true) :
    isoIsFeedbackMarked p skb = true ↔ skb.ipId ≠ 0 := by
  rw [isoIsFeedbackMarked, skbHasFeedback, if_pos hfb]
  simp [← UInt16.toNat_inj]

/-- When a feedback packet is consumed by a host whose VQ is ready for it. -/
theorem isoRx_drop_iff (hp : p.Sane) (hs : h.Sound plat p) (online : List C) {env : RxEnv C}
    {skb : Skb} (hfb : isoIsGeneratedFeedback p skb = true) {v k : ℕ}
    (hv : h.rx.isoVqFind plat (isoRxClassify skb) = some v) (hready : (h.rx.vqs v).Ready p env)
    (hk : h.tx.isoTxcFind plat (isoRxClassify skb) = some k) :
    (∃ out h', isoRx plat p online env skb h = .ok (out, h') ∧ out.verdict = .drop ∧
        out.feedback = none) ↔
      (h.tx.txcs k).stateBucket (TxClass.stateHash plat (TxClass.peer plat skb true)) ≠ [] ∨
        (skb.ipId ≠ 0 ∧ env.writelock = true ∧ (h.tx.txcs k).preallocStateList ≠ []) := by
  have hip : skb.isIp := isIp_of_isoIsGeneratedFeedback hfb
  have hmarked := isoIsFeedbackMarked_iff hfb
  obtain ⟨rx, hrx, hst, heq⟩ := isoRx_eq hp hs online hv hready hk
  rcases hstate : TxClass.isoStateGet plat env.stateNow (h.tx.txcs k) skb true
    (isoIsFeedbackMarked p skb) env.writelock with ⟨state, txc'⟩
  have hgot := (hs.tx k).isoStateGet_got env.stateNow hip true (isoIsFeedbackMarked p skb)
    env.writelock
  rw [hstate] at hgot
  -- with a state, the packet is consumed
  have hobj : ∀ i, state = .obj i → ∃ out h',
      isoRx plat p online env skb h = .ok (out, h') ∧ out.verdict = .drop ∧
        out.feedback = none := by
    rintro i rfl
    obtain ⟨out, h', hok, hverdict, hnone, -⟩ :=
      isoRx_of_state hp hs online hfb hv hready hk hstate
    exact ⟨out, h', hok, hverdict, hnone⟩
  rw [hstate] at heq
  cases hgot with
  | found i hchain =>
    exact iff_of_true (hobj i rfl) (Or.inl (by simp [hchain]))
  | taken i j states limiters hchain hcreate hlock hi hj =>
    exact iff_of_true (hobj i rfl) (Or.inr ⟨hmarked.1 hcreate, hlock, by simp [hi]⟩)
  | refused hchain hno =>
    refine iff_of_false ?_ ?_
    · -- without a state, the verdict stays `ISO_VERDICT_SUCCESS`
      rintro ⟨out, h', hok, hdrop, -⟩
      have htx : (h.tx.modifyTxc k fun _ => h.tx.txcs k).Pooled plat := hs.tx.modifyTxc k (hs.tx k)
      have hfinish := finish_ends (h := ⟨rx, h.tx.modifyTxc k fun _ => h.tx.txcs k⟩)
        ⟨hrx, htx⟩ hst env .success skb
      rw [heq] at hok
      rw [show finish p env v .success skb _ = .ok (out, h') from hok] at hfinish
      exact absurd (hfinish.1.symm.trans hdrop) (by decide)
    · rintro (hne | ⟨hid, hlock, -⟩)
      · exact hne hchain
      · rcases hno with hcreate | hno
        · rw [← hmarked, hcreate] at hid
          exact absurd hid (by decide)
        · rw [hlock] at hno
          exact absurd hno (by decide)
  | exhausted hchain hcreate hlock hfree =>
    refine iff_of_false ?_ ?_
    · -- the list head is no state: the access to it is wild
      rintro ⟨out, h', hok, -, -⟩
      rw [heq] at hok
      exact nomatch hok
    · rintro (hne | ⟨-, -, hne⟩)
      · exact hne hchain
      · exact hne hfree

/-- **When a feedback packet is consumed**, in any state that two hosts reach: its VQ must be ready
for it, and it must find a state on the hash chain of its source, or carry a rate, find the lock
free and a state to be taken. -/
theorem isoRx_consumes_iff (hp : p.Sane) {online : List C} {t : Bool → ℕ × ℕ}
    {ops : List (Net.Op C)} {net : Net C} (hrun : Net.runFrom plat p online t ops = .ok net)
    (side : Bool) (env : RxEnv C) {skb : Skb} (hfb : isoIsGeneratedFeedback p skb = true) {v k : ℕ}
    (hv : (net.host side).rx.isoVqFind plat (isoRxClassify skb) = some v)
    (hk : (net.host side).tx.isoTxcFind plat (isoRxClassify skb) = some k) :
    let txc := (net.host side).tx.txcs k
    (∃ out h, isoRx plat p online env skb (net.host side) = .ok (out, h) ∧ out.verdict = .drop ∧
        out.feedback = none) ↔
      ((net.host side).rx.vqs v).Ready p env ∧
        (txc.stateBucket (TxClass.stateHash plat (TxClass.peer plat skb true)) ≠ [] ∨
          (skb.ipId ≠ 0 ∧ env.writelock = true ∧ txc.preallocStateList ≠ [])) := by
  intro txc
  have hs := Net.runFrom_sound hp hrun side
  constructor
  · rintro ⟨out, h, hok, hconsumed⟩
    have hready : ((net.host side).rx.vqs v).Ready p env := by
      by_contra hready
      exact (isoRx_fails hp hs online hv hready).ne_ok _ hok
    exact ⟨hready, (isoRx_drop_iff hp hs online hfb hv hready hk).1 ⟨out, h, hok, hconsumed⟩⟩
  · rintro ⟨hready, hstate⟩
    exact (isoRx_drop_iff hp hs online hfb hv hready hk).2 hstate

theorem isoRx_consumes_iff_exchange :
    ∃ out h, installed 1 1 = .ok (out, h) ∧ out.verdict = .drop ∧ out.feedback = none := by
  have hrun : Net.runFrom Platform.x86 {} [()] (fun _ => (0, 0)) (exchange 1 1) =
      .ok (exchangeNet 1 1) := eq_ok_endOr _ (by decide +kernel)
  have hfb : isoIsGeneratedFeedback {} (answerPacket 1 1).pulled = true := by decide +kernel
  have hready : (((exchangeNet 1 1).host false).rx.vqs 0).Ready {} (envAt 10000 true) :=
    ⟨by decide +kernel, fun _ => by decide +kernel⟩
  have h := isoRx_consumes_iff (v := 0) (k := 0) Params.sane_default hrun false
    (envAt 10000 true) hfb (by decide +kernel) (by decide +kernel)
  exact h.2 ⟨hready, Or.inl (by decide +kernel)⟩

/-- The receiver has no state for its peer.  While another CPU holds the lock of the class, a
feedback packet to it is passed on to the stack and answered by a feedback packet. -/
theorem isoRx_answers_feedback :
    let net := exchangeNet 1 1
    let fb : Skb := ⟨0, 50, true, addrA, addrB, 143, 2, 10, by decide⟩
    let r := isoRx Platform.x86 {} [()] (envAt 10000 false) fb (net.host true)
    Net.runFrom Platform.x86 {} [()] (fun _ => (0, 0)) (exchange 1 1) = .ok net ∧
      isoIsGeneratedFeedback {} fb = true ∧
      r.map (fun r => (r.1.verdict, r.1.feedback.join.map (isoIsGeneratedFeedback {}))) =
        .ok (.success, some true) := by
  refine ⟨?_, by decide, ?_⟩
  · exact eq_ok_endOr _ (by decide +kernel)
  · decide +kernel

/-! ### The mark that reaches the stack -/

/-- `iso_rx` passes the packet on as it came, with or without a state for its source: what
`iso_clear_ecn` writes is what was there. -/
theorem isoRx_skb (online : List C) (env : RxEnv C) (skb : Skb) :
    Ends (fun r => r.1.skb = skb) (fun _ => True) (isoRx plat p online env skb h) := by
  have huse : ∀ (txc : TxClass C) (state : Ptr),
      Ends (fun r => r.2.1 = skb) (fun _ => True) (useState p env skb txc state) := by
    intro txc state
    cases state with
    | null => rfl
    | listHead => trivial
    | obj i => exact (ends_true _).bind fun _ _ => skb.isoClearEcn_eq
  have hfinish : ∀ (v : ℕ) (verdict : IsoVerdict) (skb : Skb) (h : Host C),
      Ends (fun r => r.1.skb = skb) (fun _ => True) (finish p env v verdict skb h) := by
    intro v verdict skb h
    rw [finish]
    exact Ends.ite (fun _ => (ends_true _).bind fun _ _ => rfl) fun _ => rfl
  rw [isoRx]
  refine (ends_true _).bind fun r _ => ?_
  obtain ⟨vq, rx⟩ := r
  simp only
  rcases vq with _ | v
  · rfl
  · rcases h.tx.isoTxcFind plat (isoRxClassify skb) with _ | k
    · rfl
    · refine (huse _ _).bind fun r hr => ?_
      exact (hfinish v r.1 r.2.1 _).mono (fun _ hr' => hr'.trans hr) fun _ _ => trivial

/-- The packet is passed on with ECN bits `00` and the rest of `tos` as it was exactly if it came
with ECN bits `00`. -/
theorem isoRx_ecn_iff {online : List C} {env : RxEnv C} {skb : Skb} {out : RxOutcome} {h' : Host C}
    (hrx : isoRx plat p online env skb h = .ok (out, h')) :
    out.skb.ecn = 0 ∧ out.skb.dscp = skb.dscp ↔ skb.ecn = 0 := by
  have hskb : out.skb = skb := (isoRx_skb online env skb).of_eq_ok hrx
  rw [hskb]
  exact and_iff_left rfl

theorem isoRx_ecn_iff_exchange :
    isoRx Platform.x86 {} [()] (envAt 10000 true) dataPacket ((exchangeNet 1 1).host true) =
        .ok ((answer 1 1).1, (answer 1 1).2) ∧
      (answer 1 1).1.skb.ecn = 0 ∧ (answer 1 1).1.skb.dscp = dataPacket.dscp := by
  have hrx : isoRx Platform.x86 {} [()] (envAt 10000 true) dataPacket
      ((exchangeNet 1 1).host true) = .ok ((answer 1 1).1, (answer 1 1).2) := by
    rw [Prod.mk.eta]
    exact eq_ok_endOr _ (by decide +kernel)
  exact ⟨hrx, (isoRx_ecn_iff hrx).mpr (by decide)⟩

/-- A mark reaches the stack: at the receiver, which has no state for the source of the packet, and
at the sender, which has one for its peer. -/
theorem isoRx_ecn_leaks :
    let net := exchangeNet 1 1
    let toB : Skb := { dataPacket with tos := 0x3 }
    let toA : Skb := { dataPacket with tos := 0x3, saddr := addrB, daddr := addrA }
    Net.runFrom Platform.x86 {} [()] (fun _ => (0, 0)) (exchange 1 1) = .ok net ∧
      ((net.host true).rx.isoVqFind Platform.x86 (isoRxClassify toB)).isSome ∧
      ((net.host true).tx.isoTxcFind Platform.x86 (isoRxClassify toB)).isSome ∧
      (isoRx Platform.x86 {} [()] (envAt 10000 true) toB (net.host true)).map
        (fun r => (r.1.verdict, r.1.skb.ecn)) = .ok (.success, 3) ∧
      ((net.host false).rx.isoVqFind Platform.x86 (isoRxClassify toA)).isSome ∧
      (net.host false).tx.isoTxcFind Platform.x86 (isoRxClassify toA) = some 0 ∧
      (TxClass.isoStateGet Platform.x86 0 ((net.host false).tx.txcs 0) toA true false true).1 =
        .obj 0 ∧
      (isoRx Platform.x86 {} [()] (envAt 10000 true) toA (net.host false)).map
        (fun r => (r.1.verdict, r.1.skb.ecn)) = .ok (.success, 3) := by
  refine ⟨?_, ?_⟩
  · exact eq_ok_endOr _ (by decide +kernel)
  · decide +kernel

end EyeQ.Host
