import EyeQ.Rl.Equiv.Append

/-!
# How much a queue can hold

The two paths of `iso_rl_enqueue` have different tests for room: a packet that is appended whole
must fit below the limit, a segment is appended as long as the queue is below it.  So a queue is at
most at the limit, or one segment above it (`Within`).  This holds whatever limiter is enqueued to,
in any order of calls (`CallStep`), and in every state inside a call.

`callSteps_bounded` is the bound, and that the arithmetic of `diff` on the first path is exact.
-/

namespace EyeQ.Rl

open Machine

variable {K D C : Type} [DecidableEq K] [DecidableEq D] [DecidableEq C]

/-! ### Calls -/

/-- A call from outside.  Any limiter can be enqueued to, and its rate can become anything. -/
inductive Call (K D C : Type) where
  | enqueue (r : RlId K D) (c : C) (skb : Skb)
  | dequeue (r : RlId K D) (c : C)
  | setRate (r : RlId K D) (rate time : ℕ)

def call [Fintype C] (p : Params) (k : Kernel) (s : TxState K D C) : Call K D C → TxState K D C
  | .enqueue r c skb => (isoRlEnqueue p k r skb c s).2
  | .dequeue r c => (isoRlDequeue p k r c s).2
  | .setRate r rate time =>
    s.modifyRl r fun l => { l with rate := rate, lastRateUpdateTime := time }

/-- One indivisible step of a run of calls. -/
inductive CallStep (p : Params) (k : Kernel) (s : TxState K D C) : TxState K D C → Prop
  | inner (s' : TxState K D C) (h : Inner p k s s') : CallStep p k s s'
  | enqueue (r : RlId K D) (c : C) (pkt : Skb) : CallStep p k s (isoRlEnqueue p k r pkt c s).2
  | rateWrite (s' : TxState K D C) (h : RateWrite s s') : CallStep p k s s'

/-- A call is a sequence of such steps. -/
theorem call_path [Fintype C] (p : Params) (k : Kernel) (s : TxState K D C) (x : Call K D C) :
    IsPath (CallStep p k) s (call p k s x) := by
  cases x with
  | enqueue r c skb => exact .single (.enqueue r c skb)
  | dequeue r c =>
    exact Relation.ReflTransGen.mono (fun _ _ h => .inner _ h) _ _ (isoRlDequeue_path r c s)
  | setRate r rate time => exact .single (.rateWrite _ ⟨r, rate, time, rfl, rfl, rfl, le_rfl⟩)

/-! ### The bound -/

/-- The queue is at most at the limit, or above it by less than a segment that it was given. -/
def Within (p : Params) (s : TxState K D C) (r : RlId K D) (c : C) : Prop :=
  (s.q r c).bytesEnqueued ≤ p.isoMaxQueueLenBytes ∨
    ∃ skb segs seg, Event.gsoSegment r c skb (some segs) ∈ s.trace ∧ seg ∈ segs ∧
      (s.q r c).bytesEnqueued < p.isoMaxQueueLenBytes + seg.size

variable {p : Params} {k : Kernel} {s s' : TxState K D C}

omit [DecidableEq K] [DecidableEq D] [DecidableEq C] in
theorem Within.le_maxBytes {r : RlId K D} {c : C} (h : Within p s r c) :
    (s.q r c).bytesEnqueued ≤ maxBytes p := by
  unfold maxBytes
  rcases h with hle | ⟨_, _, seg, -, -, hlt⟩
  · omega
  · have hsize := seg.size_le
    omega

omit [DecidableEq K] [DecidableEq D] [DecidableEq C] in
/-- A queue with no more bytes stays within its bound. -/
theorem Within.mono {r : RlId K D} {c : C} (h : Within p s r c)
    (hbytes : (s'.q r c).bytesEnqueued ≤ (s.q r c).bytesEnqueued) (htrace : s.trace ⊆ s'.trace) :
    Within p s' r c := by
  rcases h with hle | ⟨skb, segs, seg, hmem, hseg, hlt⟩
  · exact Or.inl (hbytes.trans hle)
  · exact Or.inr ⟨skb, segs, seg, htrace hmem, hseg, hbytes.trans_lt hlt⟩

/-- A packet that is split shows in the history. -/
theorem gsoSegment_mem_of_splits {r : RlId K D} {pkt : Skb} {segs : List Skb}
    (hsplits : Splits p k r pkt s) (hsegs : k.skbGsoSegment pkt = some segs) (c : C) :
    Event.gsoSegment r c pkt (some segs) ∈ (isoRlEnqueue p k r pkt c s).2.trace := by
  have hpath := not_splits_iff.not.mp (not_not_intro hsplits)
  rw [isoRlEnqueue]
  simp only [hpath, ↓reduceIte, hsegs]
  refine (foldl_appendSegment_fills p r c segs _).trace ?_
  simp [TxState.log]

/-- Enqueueing keeps its queue within its bound, on both paths. -/
theorem isoRlEnqueue_within {r : RlId K D} {c : C} (h : Within p s r c) (pkt : Skb) :
    Within p (isoRlEnqueue p k r pkt c s).2 r c := by
  have hq := q_isoRlEnqueue p k r pkt c s (add_size_lt h.le_maxBytes pkt)
  have htouch := isoRlEnqueue_touches p k r pkt c s
  by_cases hnil : added p k r pkt c s = []
  · refine h.mono ?_ htouch.trace
    rw [hq, hnil]
    exact le_rfl
  · unfold Within
    rw [hq]
    dsimp only
    unfold added at hnil ⊢
    split_ifs at hnil ⊢ with hsplits hroom
    · -- the segments: the last one exceeds the limit by less than its size
      cases hsegs : k.skbGsoSegment pkt with
      | none => rw [hsegs] at hnil; exact absurd rfl hnil
      | some segs =>
        rw [hsegs] at hnil
        obtain ⟨seg, hseg, hlt⟩ := fitting_bytes_lt hnil
        exact Or.inr ⟨pkt, segs, seg, gsoSegment_mem_of_splits hsplits hsegs c, hseg, hlt⟩
    · left
      simpa using hroom
    · exact absurd rfl hnil

/-- Sending a packet keeps every queue within its bound. -/
theorem forward_within (hocc : Occupied p s) (h : ∀ r c, Within p s r c) {r : RlId K D}
    {c : C} {pkt : Skb} {rest : List Skb} (hlist : (s.q r c).list = pkt :: rest)
    (hforward : forward p k r c pkt s = some s') (r' : RlId K D) (c' : C) : Within p s' r' c' := by
  have hle : pkt.size ≤ (s.q r c).bytesEnqueued := (hocc r c).le_bytes hlist
  have hlt : (s.q r c).bytesEnqueued < 2 ^ 64 := by
    have hmax := maxBytes_lt p
    have hbytes := (h r c).le_maxBytes
    omega
  -- the charge takes bytes off the queue, and the history has one more event
  have hcharge : ∀ s₁ : TxState K D C, (s₁.q r c).bytesEnqueued = (s.q r c).bytesEnqueued →
      Within p s₁ r' c' → Within p (charge r c pkt.size s₁) r' c' := by
    intro s₁ hbytes hw
    refine hw.mono ?_ (List.subset_append_left _ _)
    by_cases hx : (r', c') = (r, c)
    · obtain ⟨rfl, rfl⟩ := Prod.mk.inj hx
      rw [q_charge_self]
      show sub64 _ _ ≤ _
      rw [hbytes, sub64_of_le hle hlt]
      exact Nat.sub_le _ _
    · rw [q_charge_of_ne _ _ hx]
  have hdequeue : ∀ r'' c'', ((skbDequeue r c s).q r'' c'').bytesEnqueued =
      (s.q r'' c'').bytesEnqueued := by
    intro r'' c''
    by_cases hx : (r'', c'') = (r, c)
    · obtain ⟨rfl, rfl⟩ := Prod.mk.inj hx
      rw [q_skbDequeue_self]
    · rw [q_skbDequeue_of_ne _ hx]
  have hwithin : ∀ r'' c'', Within p (skbDequeue r c s) r'' c'' := fun r'' c'' =>
    (h r'' c'').mono (hdequeue r'' c'').le (List.Subset.refl _)
  unfold forward at hforward
  cases r with
  | txc t =>
    obtain rfl := Option.some.inj hforward
    have hxmit : Within p ((skbDequeue (.txc t) c s).log (.xmit c pkt)) r' c' :=
      (hwithin r' c').mono le_rfl (List.subset_append_left _ _)
    exact hcharge _ (hdequeue _ _) hxmit
  | dest t d =>
    dsimp only at hforward
    split_ifs at hforward with hspace
    obtain rfl := Option.some.inj hforward
    have htouch := isoRlEnqueue_touches p k (.txc t) pkt c (skbDequeue (.dest t d) c s)
    refine hcharge _ ?_ ?_
    · rw [htouch.q (by simp)]
      exact hdequeue _ _
    · by_cases hx : (r', c') = (.txc t, c)
      · obtain ⟨rfl, rfl⟩ := Prod.mk.inj hx
        exact isoRlEnqueue_within (hwithin _ _) pkt
      · refine (hwithin r' c').mono ?_ htouch.trace
        rw [htouch.q hx]

/-! ### Runs -/

/-- What a step keeps. -/
theorem CallStep.within (hstep : CallStep p k s s') (hocc : Occupied p s)
    (h : ∀ r c, Within p s r c) :
    s.trace ⊆ s'.trace ∧ Occupied p s' ∧ ∀ r c, Within p s' r c := by
  have hstill : Still s s' → s.trace ⊆ s'.trace → ∀ r c, Within p s' r c := fun hstill htrace r c =>
    (h r c).mono (congrArg Load.bytes (hstill.load r c)).le htrace
  cases hstep with
  | inner _ hinner =>
    have hmove := hinner.move hocc
    refine ⟨hmove.trace_subset, hmove.occupied hocc, ?_⟩
    rcases hinner.still_or_forward with hs | ⟨r, c, pkt, rest, hlist, -, hforward⟩
    · exact hstill hs hmove.trace_subset
    · exact forward_within hocc h hlist hforward
  | enqueue r c pkt =>
    have htouch := isoRlEnqueue_touches p k r pkt c s
    obtain ⟨added, evs, hout, hself, -⟩ := load_isoRlEnqueue (k := k) hocc r pkt c
    refine ⟨htouch.trace, fun r' c' => ?_, fun r' c' => ?_⟩
    · by_cases hx : (r', c') = (r, c)
      · obtain ⟨rfl, rfl⟩ := Prod.mk.inj hx
        rw [hself]
        exact (hocc _ _).add hout
      · rw [htouch.q hx]
        exact hocc r' c'
    · by_cases hx : (r', c') = (r, c)
      · obtain ⟨rfl, rfl⟩ := Prod.mk.inj hx
        exact isoRlEnqueue_within (h _ _) pkt
      · exact (h r' c').mono (by rw [htouch.q hx]) htouch.trace
  | rateWrite _ hwrite =>
    have hmove : Move p k s s' := hwrite.still.move
    exact ⟨hmove.trace_subset, hmove.occupied hocc, hstill hwrite.still hmove.trace_subset⟩

theorem callSteps_within (hocc : Occupied p s) (h : ∀ r c, Within p s r c)
    (hpath : IsPath (CallStep p k) s s') :
    s.trace ⊆ s'.trace ∧ Occupied p s' ∧ ∀ r c, Within p s' r c := by
  refine path_invariant (P := fun s' => s.trace ⊆ s'.trace ∧ Occupied p s' ∧ ∀ r c, Within p s' r c)
    (fun s₁ s₂ hstep ⟨htrace, hocc, h⟩ => ?_) hpath ⟨List.Subset.refl _, hocc, h⟩
  obtain ⟨htrace', hocc', h'⟩ := hstep.within hocc h
  exact ⟨List.Subset.trans htrace htrace', hocc', h'⟩

/-- The segments that `skb_gso_segment` returns in an event. -/
def Event.segments : Event K D C → List Skb
  | .gsoSegment _ _ _ (some segs) => segs
  | _ => []

/-- The sizes of the segments that `skb_gso_segment` has returned. -/
def segmentSizes (τ : List (Event K D C)) : Set ℕ :=
  {n | ∃ e ∈ τ, ∃ seg ∈ e.segments, seg.size = n}

/-- The value of `diff`, and the other value formed in the test, are those of the integers; and
unless the limit is within two packets of the end of the `s32` range, so is everything on the
way. -/
theorem overshoot_exact {bytes : ℕ} (hbytes : bytes ≤ maxBytes p) (pkt : Skb) :
    s32 (s32 (s32 bytes + pkt.size) - p.isoMaxQueueLenBytes)
      = (bytes : ℤ) + pkt.size - p.isoMaxQueueLenBytes ∧
    s32 (s32 (s32 (s32 bytes + pkt.size) - p.isoMaxQueueLenBytes) - pkt.size)
      = (bytes : ℤ) - p.isoMaxQueueLenBytes ∧
    (p.isoMaxQueueLenBytes + 2 * (maxLen + ethHlen) < 2 ^ 31 →
      s32 bytes = bytes ∧ s32 ((bytes : ℤ) + pkt.size) = (bytes : ℤ) + pkt.size) := by
  have hsize : pkt.size ≤ 65563 := pkt.size_le
  have hlimit := p.isoMaxQueueLenBytes_lt
  have hmax : bytes ≤ p.isoMaxQueueLenBytes + 65563 := hbytes
  have hdiff : s32 (s32 (s32 bytes + pkt.size) - p.isoMaxQueueLenBytes)
      = (bytes : ℤ) + pkt.size - p.isoMaxQueueLenBytes := by
    rw [s32_overshoot]
    exact s32_of_fits (by omega) (by omega)
  refine ⟨hdiff, ?_, fun hfar => ?_⟩
  · rw [hdiff, s32_of_fits (by omega) (by omega)]
    ring
  · unfold maxLen ethHlen at hfar
    exact ⟨s32_of_fits (by omega) (by omega), s32_of_fits (by omega) (by omega)⟩

/-- **Occupancy.**  In every state `s` of a run, up to its last state `s'`, a queue is above the
limit by less than the largest segment of the run, and not above it unless a packet was split in
that queue; and the arithmetic of `diff` does not overflow. -/
theorem callSteps_bounded {t₀ : RlId K D → ℕ} (hpath : IsPath (CallStep p k) (TxState.init p t₀) s)
    (hlater : IsPath (CallStep p k) s s') :
    (∀ S, IsGreatest (segmentSizes s'.trace) S → ∀ r c,
      (s.q r c).bytesEnqueued < p.isoMaxQueueLenBytes + S) ∧
    (∀ r c, (∀ skb segs, Event.gsoSegment r c skb (some segs) ∉ s.trace) →
      (s.q r c).bytesEnqueued ≤ p.isoMaxQueueLenBytes) ∧
    ∀ r c (pkt : Skb),
      s32 (s32 (s32 (s.q r c).bytesEnqueued + pkt.size) - p.isoMaxQueueLenBytes)
        = ((s.q r c).bytesEnqueued : ℤ) + pkt.size - p.isoMaxQueueLenBytes ∧
      s32 (s32 (s32 (s32 (s.q r c).bytesEnqueued + pkt.size) - p.isoMaxQueueLenBytes) - pkt.size)
        = ((s.q r c).bytesEnqueued : ℤ) - p.isoMaxQueueLenBytes ∧
      (p.isoMaxQueueLenBytes + 2 * (maxLen + ethHlen) < 2 ^ 31 →
        s32 (s.q r c).bytesEnqueued = (s.q r c).bytesEnqueued ∧
        s32 (((s.q r c).bytesEnqueued : ℤ) + pkt.size) =
        ((s.q r c).bytesEnqueued : ℤ) + pkt.size) := by
  have hinit : Occupied p (TxState.init p t₀ : TxState K D C) := fun _ _ => ⟨rfl, Nat.zero_le _⟩
  obtain ⟨-, hocc, h⟩ := callSteps_within hinit (fun _ _ => Or.inl (Nat.zero_le _)) hpath
  obtain ⟨htrace, -, -⟩ := callSteps_within hocc h hlater
  refine ⟨fun S hS r c => ?_, fun r c hnone => ?_, fun r c pkt => overshoot_exact
    (h r c).le_maxBytes pkt⟩
  · rcases h r c with hle | ⟨skb, segs, seg, hmem, hseg, hlt⟩
    · obtain ⟨_, -, seg, -, hsize⟩ := hS.1
      have hpos : 0 < seg.size := Nat.add_pos_left (by decide) _
      omega
    · have hle := hS.2 ⟨_, htrace hmem, seg, hseg, rfl⟩
      omega
  · rcases h r c with hle | ⟨skb, segs, _, hmem, -, -⟩
    · exact hle
    · exact absurd hmem (hnone skb segs)

/-- A class at 500 Mbit/s, after a packet of 12000 bytes was split in its queue. -/
def afterSplit : TxState Unit Unit Unit :=
  call { isoRfairInitial := 500 } mtuKernel (TxState.init { isoRfairInitial := 500 } fun _ => 0)
    (.enqueue (.txc ()) () (packet 3 12000))

/-- The largest of its segments has 1514 bytes, and no queue is above the limit by as much. -/
theorem callSteps_bounded_afterSplit :
    IsGreatest (segmentSizes afterSplit.trace) 1514 ∧ ∀ r c,
      (afterSplit.q r c).bytesEnqueued < ({} : Params).isoMaxQueueLenBytes + 1514 := by
  have hmem : ∃ e ∈ afterSplit.trace, ∃ seg ∈ e.segments, seg.size = 1514 := by decide +kernel
  have hle : ∀ e ∈ afterSplit.trace, ∀ seg ∈ e.segments, seg.size ≤ 1514 := by decide +kernel
  have hgreatest : IsGreatest (segmentSizes afterSplit.trace) 1514 := by
    refine ⟨hmem, ?_⟩
    rintro n ⟨e, he, seg, hseg, rfl⟩
    exact hle e he seg hseg
  exact ⟨hgreatest,
    (callSteps_bounded (call_path { isoRfairInitial := 500 } mtuKernel _ _) .refl).1 1514 hgreatest⟩

end EyeQ.Rl
