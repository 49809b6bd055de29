import EyeQ.Rl.Equiv.Append

/-!
# The way of a packet

A `Journey` is the way of one packet from `iso_tx` to `skb_xmit`, with the states in which it is
moved: it is made ECN capable and put in the queue of its destination, whole or as segments; it, or
one of the segments, passes to the class-level queue, once more whole or as segments; and from there
it goes to the device.  Every packet that a run transmits has come such a way (`runFrom_journey`).

`tos` is written at two points of the way, in `iso_enable_ecn` and where the class-level queue
marks.

* `Journey.dscp_iff`: when the upper six bits arrive as they were.  A mark overwrites all of `tos`.
* `Journey.ce_iff`: when a mark means that the class-level queue is above `ISO_TX_MARK_THRESH`.
  Segments are not marked, and `iso_enable_ecn` makes a mark of ECT(1).
-/

namespace EyeQ.Rl

open Machine

variable {K D C : Type} [DecidableEq K] [DecidableEq D] [DecidableEq C]

/-- `s'` can follow on `s`. -/
def Reaches (p : Params) (k : Kernel) : TxState K D C → TxState K D C → Prop :=
  IsPath fun s s' => Small p k s s' ∨ RateWrite s s'

/-- The segments of a packet have its headers. -/
def CopiesHeader (k : Kernel) : Prop :=
  ∀ pkt segs, k.skbGsoSegment pkt = some segs → ∀ skb ∈ segs, skb.tos = pkt.tos ∧
  skb.isIp = pkt.isIp

/-- The way of an IPv4 packet through the limiters of a context that was set up at the times
`t₀`. -/
structure Journey (C : Type) [DecidableEq C] (p : Params) (k : Kernel) (t₀ : RlId K D → ℕ) where
  t : K
  d : D
  c : C
  /-- The packet that `iso_tx` is called with. -/
  pkt : Skb
  isIp : pkt.isIp = true
  /-- The state in which `iso_tx` enqueues it. -/
  entry : TxState K D C
  entry_reachable : Reaches p k (TxState.init p t₀) entry
  /-- What is appended to the queue of the destination. -/
  atDest : List Skb
  enters : ((isoRlEnqueue p k (.dest t d) pkt.isoEnableEcn c entry).2.q (.dest t d) c).list
    = (entry.q (.dest t d) c).list ++ atDest
  queued : Skb
  queued_mem : queued ∈ atDest
  /-- The state in which `queued` is sent to the class-level queue. -/
  pass : TxState K D C
  pass_reachable : Reaches p k (isoRlEnqueue p k (.dest t d) pkt.isoEnableEcn c entry).2 pass
  pass_head : (pass.q (.dest t d) c).list.head? = some queued
  pass_tokens : queued.size ≤ (pass.q (.dest t d) c).tokens
  passed : TxState K D C
  pass_forward : forward p k (.dest t d) c queued pass = some passed
  /-- What is appended to the class-level queue. -/
  atClass : List Skb
  appends : (passed.q (.txc t) c).list = (pass.q (.txc t) c).list ++ atClass
  n : ℕ
  sent : Skb
  sent_eq : atClass[n]? = some sent
  /-- The state in which `sent` is handed to `skb_xmit`. -/
  exit : TxState K D C
  exit_reachable : Reaches p k passed exit
  exit_head : (exit.q (.txc t) c).list.head? = some sent
  exit_tokens : sent.size ≤ (exit.q (.txc t) c).tokens

/-! ### Reachable states -/

section

variable {p : Params} {k : Kernel} {s s' : TxState K D C}

theorem Reaches.occupied (h : Reaches p k s s') (hocc : Occupied p s) : Occupied p s' := by
  refine path_invariant (P := Occupied p) (fun s s' hstep hocc => ?_) h hocc
  rcases hstep with hsmall | hwrite
  · exact (hsmall.move hocc).occupied hocc
  · exact (hwrite.still.move (k := k)).occupied hocc

omit [DecidableEq K] [DecidableEq D] [DecidableEq C] in
theorem init_occupied (p : Params) (t : RlId K D → ℕ) :
    Occupied p (TxState.init p t : TxState K D C) :=
  fun _ _ => ⟨rfl, Nat.zero_le _⟩

theorem Reaches.enqueue (h : Reaches p k s s') (t : K) (d : D) (pkt : Skb) (c : C) :
    Reaches p k s (isoRlEnqueue p k (.dest t d) pkt c s').2 :=
  h.tail (Or.inl (.enqueue s' t d c pkt))

theorem Reaches.forward (h : Reaches p k s s') {r : RlId K D} {c : C} {pkt : Skb}
    {s'' : TxState K D C} (hhead : (s'.q r c).list.head? = some pkt)
    (htokens : pkt.size ≤ (s'.q r c).tokens) (hforward : forward p k r c pkt s' = some s'') :
    Reaches p k s s'' := by
  obtain ⟨rest, hlist⟩ := List.head?_eq_some_iff.mp hhead
  exact h.tail (Or.inl (.inner (.forward s' s'' r c pkt rest hlist htokens hforward)))

omit [DecidableEq C] in
/-- Which path is taken depends on the limiter and the clock alone. -/
theorem splits_congr {r : RlId K D} {pkt : Skb} (hrl : s'.rl r = s.rl r)
    (hreads : s'.reads = s.reads) :
    Splits p k r pkt s' ↔ Splits p k r pkt s := by
  unfold Splits isoRlClock TxState.read TxState.modifyRl
  rw [hrl, hreads]
  split_ifs
  · simp only [Function.update_self]
  · simp only [hrl]

end

/-! ### One hop -/

section Hop

variable {p : Params} {k : Kernel} {pkt skb : Skb} {c : C} {s : TxState K D C}

omit [DecidableEq C] in
/-- What a destination's queue is given has the header of the packet. -/
theorem header_of_mem_added_dest (hgso : CopiesHeader k) {t : K} {d : D}
    (hmem : skb ∈ added p k (.dest t d) pkt c s) : skb.tos = pkt.tos ∧ skb.isIp = pkt.isIp := by
  unfold added at hmem
  split_ifs at hmem with hsplits hroom
  · have hseg := (fitting_isPrefix p _ _).subset hmem
    cases hsegs : k.skbGsoSegment pkt with
    | none => rw [hsegs] at hseg; exact absurd hseg List.not_mem_nil
    | some segs => rw [hsegs] at hseg; exact hgso pkt segs hsegs skb hseg
  · obtain rfl := List.mem_singleton.mp hmem
    exact ⟨rfl, rfl⟩
  · exact absurd hmem List.not_mem_nil

omit [DecidableEq C] in
/-- The `n`-th packet appended to a class-level queue is a segment with the header of the packet, or
the packet itself, marked or not. -/
theorem added_txc_cases (hgso : CopiesHeader k) {t : K} {n : ℕ}
    (hget : (added p k (.txc t) pkt c s)[n]? = some skb) :
    Splits p k (.txc t) pkt s ∧ skb.tos = pkt.tos ∨
      ¬ Splits p k (.txc t) pkt s ∧
        skb = marked p (.txc t : RlId K D) (s.q (.txc t) c).bytesEnqueued pkt := by
  have hmem := List.mem_of_getElem? hget
  unfold added at hmem
  split_ifs at hmem with hsplits hroom
  · refine Or.inl ⟨hsplits, ?_⟩
    have hseg := (fitting_isPrefix p _ _).subset hmem
    cases hsegs : k.skbGsoSegment pkt with
    | none => rw [hsegs] at hseg; exact absurd hseg List.not_mem_nil
    | some segs => rw [hsegs] at hseg; exact (hgso pkt segs hsegs skb hseg).1
  · exact Or.inr ⟨hsplits, List.mem_singleton.mp hmem⟩
  · exact absurd hmem List.not_mem_nil

/-- What sending a packet to the class-level queue appends there. -/
theorem list_forward_dest (hocc : Occupied p s) {t : K} {d : D} {s' : TxState K D C}
    (hforward : forward p k (.dest t d) c pkt s = some s') :
    (s'.q (.txc t) c).list = (s.q (.txc t) c).list ++ added p k (.txc t) pkt c s := by
  unfold forward at hforward
  dsimp only at hforward
  split_ifs at hforward with hspace
  obtain rfl := Option.some.inj hforward
  have hne : (RlId.txc t, c) ≠ (RlId.dest t d, c) := by simp
  -- the class-level limiter does not see that the packet has left the destination's queue
  have hparent : (skbDequeue (.dest t d) c s).q (.txc t) c = s.q (.txc t) c :=
    q_skbDequeue_of_ne s hne
  have hrl : (skbDequeue (.dest t d) c s).rl (.txc t) = s.rl (.txc t) := by
    rw [skbDequeue, TxState.modifyQ, TxState.rl_modifyRl_of_ne _ _ (by simp)]
  have hsplits : Splits p k (.txc t) pkt (skbDequeue (.dest t d) c s) ↔ Splits p k (.txc t) pkt s :=
    splits_congr hrl rfl
  have hadded : added p k (.txc t) pkt c (skbDequeue (.dest t d) c s)
      = added p k (.txc t) pkt c s := by
    unfold added
    rw [hparent]
    simp only [hsplits]
  rw [q_charge_of_ne _ _ hne, q_isoRlEnqueue _ _ _ _ _ _
    (by rw [hparent]; exact add_size_lt (hocc (.txc t) c).2 pkt), hparent, hadded]

end Hop

/-! ### What arrives -/

namespace Journey

variable {p : Params} {k : Kernel} {t₀ : RlId K D → ℕ} (j : Journey C p k t₀)

theorem entry_occupied : Occupied p j.entry := j.entry_reachable.occupied (init_occupied p t₀)

theorem pass_occupied : Occupied p j.pass :=
  j.pass_reachable.occupied ((j.entry_reachable.enqueue j.t j.d j.pkt.isoEnableEcn j.c).occupied
    (init_occupied p t₀))

theorem atDest_eq : j.atDest = added p k (.dest j.t j.d) j.pkt.isoEnableEcn j.c j.entry := by
  have hlist := j.enters
  rw [q_isoRlEnqueue _ _ _ _ _ _ (add_size_lt (j.entry_occupied _ _).2 _)] at hlist
  exact (List.append_cancel_left hlist).symm

theorem atClass_eq : j.atClass = added p k (.txc j.t) j.queued j.c j.pass :=
  (List.append_cancel_left
    ((list_forward_dest j.pass_occupied j.pass_forward).symm.trans j.appends)).symm

/-- In the queue of its destination, the packet is as `iso_enable_ecn` has made it. -/
theorem header_queued (hgso : CopiesHeader k) :
    j.queued.tos = j.pkt.isoEnableEcn.tos ∧ j.queued.isIp = true := by
  have hmem := j.queued_mem
  rw [j.atDest_eq] at hmem
  obtain ⟨htos, hip⟩ := header_of_mem_added_dest hgso hmem
  exact ⟨htos, hip.trans j.isIp⟩

/-- What is sent has been split off at the class level, or it is the packet that was queued there,
marked if the queue is above the threshold with it. -/
theorem sent_cases (hgso : CopiesHeader k) :
    Splits p k (.txc j.t) j.queued j.pass ∧ j.sent.tos = j.queued.tos ∨
      ¬ Splits p k (.txc j.t) j.queued j.pass ∧
        ((j.pass.q (.txc j.t) j.c).bytesEnqueued + j.queued.size ≤ p.isoTxMarkThresh ∧
            j.sent = j.queued ∨
          p.isoTxMarkThresh < (j.pass.q (.txc j.t) j.c).bytesEnqueued + j.queued.size ∧
            j.sent = j.queued.changeDsfield 0 0x3) := by
  have hget := j.sent_eq
  rw [j.atClass_eq] at hget
  refine (added_txc_cases hgso hget).imp_right fun ⟨hwhole, hsent⟩ => ⟨hwhole, ?_⟩
  rw [marked] at hsent
  simp only [(j.header_queued hgso).2, and_true] at hsent
  split_ifs at hsent with habove
  · exact Or.inr ⟨habove, hsent⟩
  · exact Or.inl ⟨Nat.le_of_not_lt habove, hsent⟩

/-- The upper six bits of `tos` arrive as they were exactly if they are `0`, or if the packet is
split at the class level or does not bring the class-level queue above the threshold. -/
theorem dscp_iff (hgso : CopiesHeader k) :
    j.sent.dscp = j.pkt.dscp ↔
      j.pkt.dscp = 0 ∨ Splits p k (.txc j.t) j.queued j.pass ∨
        (j.pass.q (.txc j.t) j.c).bytesEnqueued + j.queued.size ≤ p.isoTxMarkThresh := by
  have hqueued : j.queued.dscp = j.pkt.dscp :=
    (Skb.dscp_eq_of_tos (j.header_queued hgso).1).trans (Skb.dscp_isoEnableEcn _)
  rcases j.sent_cases hgso with ⟨hsplits, htos⟩ | ⟨hwhole, ⟨hbelow, hsent⟩ | ⟨habove, hsent⟩⟩
  · exact iff_of_true ((Skb.dscp_eq_of_tos htos).trans hqueued) (Or.inr (Or.inl hsplits))
  · rw [hsent]
    exact iff_of_true hqueued (Or.inr (Or.inr hbelow))
  · rw [hsent, Skb.dscp_changeDsfield_mark]
    constructor
    · exact fun h => Or.inl h.symm
    · rintro (h | h | h)
      · exact h.symm
      · exact absurd h hwhole
      · exact absurd habove (Nat.not_lt.mpr h)

/-- The `bytes_enqueued` of the class-level queue just after `sent` was appended: what the queue
held before and what has been appended of `queued` so far. -/
def bytesAfter : ℕ :=
  (j.pass.q (.txc j.t) j.c).bytesEnqueued + ((j.atClass.take (j.n + 1)).map Skb.size).sum

/-- The same from what is known before. -/
theorem bytesAfter_eq : j.bytesAfter = bytesWith p k (.txc j.t) j.queued j.c j.pass j.n := by
  have hlen : j.n + 1 ≤ (j.atClass.map Skb.size).length := by
    rw [List.length_map]
    exact (List.getElem?_eq_some_iff.mp j.sent_eq).1
  have hpre := sizes_added_isPrefix p k (.txc j.t) j.queued j.c j.pass
  rw [← j.atClass_eq] at hpre
  obtain ⟨rest, hpieces⟩ := hpre
  rw [bytesAfter, bytesWith, List.map_take, List.map_take, ← hpieces,
    List.take_append_of_le_length hlen]

theorem bytesAfter_of_not_splits (h : ¬ Splits p k (.txc j.t) j.queued j.pass) :
    j.bytesAfter = (j.pass.q (.txc j.t) j.c).bytesEnqueued + j.queued.size := by
  rw [j.bytesAfter_eq, bytesWith, pieces, if_neg h]
  simp

/-- For a segment, this is the byte count after as many rounds of the loop. -/
theorem bytesAfter_of_splits (h : Splits p k (.txc j.t) j.queued j.pass) {segs : List Skb}
    (hsegs : k.skbGsoSegment j.queued = some segs) :
    j.bytesAfter = (((segs.take (j.n + 1)).foldl (appendSegment p (.txc j.t) j.c) j.pass).q
      (.txc j.t) j.c).bytesEnqueued := by
  rw [q_foldl_appendSegment, bytesAfter, j.atClass_eq, added, if_pos h, hsegs, fitting_take]
  rfl

/-- A mark means what it should exactly if: ECT(1) comes only to a class-level queue that it brings
above the threshold, and a packet without a mark is split at the class level only where that leaves
the queue below. -/
theorem ce_iff (hgso : CopiesHeader k) :
    (j.sent.ecn = 3 ↔ j.pkt.ecn = 3 ∨ p.isoTxMarkThresh < j.bytesAfter) ↔
      (j.pkt.ecn = 1 → p.isoTxMarkThresh < bytesWith p k (.txc j.t) j.queued j.c j.pass j.n) ∧
      (Splits p k (.txc j.t) j.queued j.pass → j.pkt.ecn = 0 ∨ j.pkt.ecn = 2 →
        bytesWith p k (.txc j.t) j.queued j.c j.pass j.n ≤ p.isoTxMarkThresh) := by
  rw [← j.bytesAfter_eq, ← Nat.not_lt]
  have hqueued : j.queued.ecn = 3 ↔ j.pkt.ecn = 1 ∨ j.pkt.ecn = 3 := by
    rw [Skb.ecn_eq_of_tos (j.header_queued hgso).1, Skb.ecn_isoEnableEcn_eq_three_iff]
  rcases j.sent_cases hgso with ⟨hsplits, htos⟩ | ⟨hwhole, hsent⟩
  · rw [Skb.ecn_eq_of_tos htos, hqueued]
    rcases j.pkt.ecn_cases with h | h | h | h
    all_goals simp [h, hsplits]
  · rw [j.bytesAfter_of_not_splits hwhole]
    rcases hsent with ⟨hbelow, hsent⟩ | ⟨habove, hsent⟩
    · rw [hsent, hqueued]
      rcases j.pkt.ecn_cases with h | h | h | h
      all_goals simp [h, hwhole, hbelow]
    · rw [hsent, Skb.ecn_changeDsfield_mark]
      simp [hwhole, habove]

end Journey

/-! ### Where the packets of a run come from -/

section Runs

variable {p : Params} {k : Kernel} {t₀ : RlId K D → ℕ} {ops : List (Op K D C)}

/-- `skb`, in the queue of a destination in `s`, comes from a packet that `iso_tx` was called
with. -/
def FromTx (p : Params) (k : Kernel) (t₀ : RlId K D → ℕ) (ops : List (Op K D C))
    (t : K) (d : D) (c : C) (skb : Skb) (s : TxState K D C) : Prop :=
  ∃ (pkt : Skb) (entry : TxState K D C) (atDest : List Skb),
  Op.tx t d c pkt ∈ ops ∧ pkt.isIp = true ∧
    Reaches p k (TxState.init p t₀) entry ∧
    ((isoRlEnqueue p k (.dest t d) pkt.isoEnableEcn c entry).2.q (.dest t d) c).list
      = (entry.q (.dest t d) c).list ++ atDest ∧
    skb ∈ atDest ∧ Reaches p k (isoRlEnqueue p k (.dest t d) pkt.isoEnableEcn c entry).2 s

/-- `skb`, in a class-level queue in `s`, comes from a destination's queue. -/
def FromDest (p : Params) (k : Kernel) (t₀ : RlId K D → ℕ) (ops : List (Op K D C)) (t : K) (c : C)
    (skb : Skb) (s : TxState K D C) : Prop :=
  ∃ (d : D) (queued : Skb) (pass passed : TxState K D C) (atClass : List Skb) (n : ℕ),
    FromTx p k t₀ ops t d c queued pass ∧ (pass.q (.dest t d) c).list.head? = some queued ∧
    queued.size ≤ (pass.q (.dest t d) c).tokens ∧
    forward p k (.dest t d) c queued pass = some passed ∧
    (passed.q (.txc t) c).list = (pass.q (.txc t) c).list ++ atClass ∧ atClass[n]? = some skb ∧
    Reaches p k passed s

/-- Every packet in a queue, and every packet that has been transmitted, has come from `iso_tx`. -/
structure Tracked (p : Params) (k : Kernel) (t₀ : RlId K D → ℕ) (ops : List (Op K D C))
    (s : TxState K D C) : Prop where
  reachable : Reaches p k (TxState.init p t₀) s
  dest : ∀ t d c skb, skb ∈ (s.q (.dest t d) c).list → FromTx p k t₀ ops t d c skb s
  root : ∀ t c skb, skb ∈ (s.q (.txc t) c).list → FromDest p k t₀ ops t c skb s
  sent : ∀ c skb, Event.xmit c skb ∈ s.trace → ∃ j : Journey C p k t₀, j.c = c ∧ j.sent = skb ∧
    Op.tx j.t j.d j.c j.pkt ∈ ops

variable {s s' : TxState K D C}

theorem FromTx.trans {t : K} {d : D} {c : C} {skb : Skb} (h : FromTx p k t₀ ops t d c skb s)
    (hreach : Reaches p k s s') : FromTx p k t₀ ops t d c skb s' := by
  obtain ⟨pkt, entry, atDest, hop, hip, hentry, henters, hmem, hpath⟩ := h
  exact ⟨pkt, entry, atDest, hop, hip, hentry, henters, hmem, hpath.trans hreach⟩

theorem FromDest.trans {t : K} {c : C} {skb : Skb} (h : FromDest p k t₀ ops t c skb s)
    (hreach : Reaches p k s s') : FromDest p k t₀ ops t c skb s' := by
  obtain ⟨d, queued, pass, passed, atClass, n, hfrom, hhead, htokens, hforward,
    happends, hget, hpath⟩ := h
  exact ⟨d, queued, pass, passed, atClass, n, hfrom, hhead, htokens, hforward, happends, hget,
    hpath.trans hreach⟩

/-- A packet at the head of a class-level queue that has the tokens ends its journey. -/
theorem FromDest.journey {t : K} {c : C} {skb : Skb} (h : FromDest p k t₀ ops t c skb s)
    (hhead : (s.q (.txc t) c).list.head? = some skb)
    (htokens : skb.size ≤ (s.q (.txc t) c).tokens) :
    ∃ j : Journey C p k t₀, j.c = c ∧ j.sent = skb ∧ Op.tx j.t j.d j.c j.pkt ∈ ops := by
  obtain ⟨d, queued, pass, passed, atClass, n, hfrom, hphead, hptokens, hforward,
    happends, hget, hpath⟩ := h
  obtain ⟨pkt, entry, atDest, hop, hip, hentry, henters, hmem, hpass⟩ := hfrom
  exact ⟨⟨t, d, c, pkt, hip, entry, hentry, atDest, henters, queued, hmem, pass,
    hpass, hphead, hptokens, passed, hforward, atClass, happends, n, skb, hget, s, hpath, hhead,
    htokens⟩, rfl, rfl, hop⟩

/-- A step by which no packet moves. -/
theorem Tracked.still (h : Tracked p k t₀ ops s) (hreach : Reaches p k s s') (hstill : Still s s') :
    Tracked p k t₀ ops s' := by
  have hlist : ∀ r c, (s'.q r c).list = (s.q r c).list :=
    fun r c => congrArg Load.list (hstill.load r c)
  refine ⟨h.reachable.trans hreach, fun t d c skb hmem => ?_, fun t c skb hmem => ?_,
    fun c skb hmem => ?_⟩
  · rw [hlist] at hmem
    exact (h.dest t d c skb hmem).trans hreach
  · rw [hlist] at hmem
    exact (h.root t c skb hmem).trans hreach
  · obtain ⟨evs, hevs, htrace⟩ := hstill.trace
    rw [htrace, List.mem_append] at hmem
    rcases hmem with hmem | hmem
    · exact h.sent c skb hmem
    · obtain ⟨_, _, _, he⟩ := hevs _ hmem
      exact nomatch he

theorem Tracked.occupied (h : Tracked p k t₀ ops s) : Occupied p s :=
  h.reachable.occupied (init_occupied p t₀)

/-- Enqueueing transmits nothing. -/
theorem xmit_of_isoRlEnqueue {r : RlId K D} {pkt : Skb} {c : C}
    (hbytes : (s.q r c).bytesEnqueued ≤ maxBytes p) (c' : C) (skb : Skb)
    (hmem : Event.xmit c' skb ∈ (isoRlEnqueue p k r pkt c s).2.trace) :
    Event.xmit c' skb ∈ s.trace := by
  obtain ⟨added, evs, hout, happ⟩ := isoRlEnqueue_spec p k r pkt c s (add_size_lt hbytes pkt)
  rw [happ.trace, trace_isoRlClock, List.mem_append] at hmem
  rcases hmem with hmem | hmem
  · exact hmem
  · exact absurd hmem hout.not_xmit

/-- A packet of `iso_tx` comes in. -/
theorem Tracked.enqueue (h : Tracked p k t₀ ops s) {t : K} {d : D} {c : C} {pkt : Skb}
    (hop : Op.tx t d c pkt ∈ ops) (hip : pkt.isIp = true) :
    Tracked p k t₀ ops (isoRlEnqueue p k (.dest t d) pkt.isoEnableEcn c s).2 := by
  have hq := q_isoRlEnqueue p k (.dest t d) pkt.isoEnableEcn c s (add_size_lt (h.occupied _ _).2 _)
  have htouch := isoRlEnqueue_touches p k (.dest t d) pkt.isoEnableEcn c s
  have hreach : Reaches p k s (isoRlEnqueue p k (.dest t d) pkt.isoEnableEcn c s).2 :=
    Reaches.enqueue .refl t d _ c
  refine ⟨h.reachable.trans hreach, fun t' d' c' skb hmem => ?_, fun t' c' skb hmem => ?_,
    fun c' skb hmem => h.sent c' skb (xmit_of_isoRlEnqueue (h.occupied _ _).2 c' skb hmem)⟩
  · by_cases hx : (RlId.dest t' d', c') = (.dest t d, c)
    · obtain ⟨hr, rfl⟩ := Prod.mk.inj hx
      obtain ⟨rfl, rfl⟩ := RlId.dest.inj hr
      rw [hq, List.mem_append] at hmem
      rcases hmem with hmem | hmem
      · exact (h.dest _ _ _ _ hmem).trans hreach
      · exact ⟨pkt, s, _, hop, hip, h.reachable, by rw [hq], hmem, .refl⟩
    · rw [htouch.q hx] at hmem
      exact (h.dest _ _ _ _ hmem).trans hreach
  · rw [htouch.q (by simp)] at hmem
    exact (h.root _ _ _ hmem).trans hreach

/-- A packet passes to the class-level queue. -/
theorem Tracked.pass (h : Tracked p k t₀ ops s) {t : K} {d : D} {c : C}
    {pkt : Skb} {rest : List Skb} (hlist : (s.q (.dest t d) c).list = pkt :: rest)
    (htokens : pkt.size ≤ (s.q (.dest t d) c).tokens)
    (hforward : forward p k (.dest t d) c pkt s = some s') : Tracked p k t₀ ops s' := by
  have hhead : (s.q (.dest t d) c).list.head? = some pkt := by rw [hlist, List.head?_cons]
  have hreach : Reaches p k s s' := Reaches.forward .refl hhead htokens hforward
  have hself := list_forward hlist hforward
  have happends := list_forward_dest h.occupied hforward
  -- what the step leaves alone
  have hframe : (∀ r' c', (r', c') ≠ (.dest t d, c) → (r', c') ≠ (.txc t, c) →
      s'.q r' c' = s.q r' c') ∧ ∀ c' skb, Event.xmit c' skb ∈ s'.trace →
      Event.xmit c' skb ∈ s.trace := by
    unfold forward at hforward
    dsimp only at hforward
    split_ifs at hforward with hspace
    obtain rfl := Option.some.inj hforward
    have htouch := isoRlEnqueue_touches p k (.txc t) pkt c (skbDequeue (.dest t d) c s)
    have hbytes : ((skbDequeue (.dest t d) c s).q (.txc t) c).bytesEnqueued ≤ maxBytes p := by
      rw [q_skbDequeue_of_ne s (by simp)]
      exact (h.occupied (.txc t) c).2
    refine ⟨fun r' c' hd ht => ?_, fun c' skb hmem => ?_⟩
    · rw [q_charge_of_ne _ _ hd, htouch.q ht, q_skbDequeue_of_ne _ hd]
    · -- the charge is the only other event
      have hmem : Event.xmit c' skb ∈ _ ++ [_] := hmem
      rw [List.mem_append, List.mem_singleton] at hmem
      rcases hmem with hmem | hmem
      · exact xmit_of_isoRlEnqueue hbytes c' skb hmem
      · exact nomatch hmem
  refine ⟨h.reachable.trans hreach, fun t' d' c' skb hmem => ?_, fun t' c' skb hmem => ?_,
    fun c' skb hmem => h.sent c' skb (hframe.2 c' skb hmem)⟩
  · refine (h.dest t' d' c' skb ?_).trans hreach
    by_cases hx : (RlId.dest t' d', c') = (.dest t d, c)
    · obtain ⟨hr, rfl⟩ := Prod.mk.inj hx
      obtain ⟨rfl, rfl⟩ := RlId.dest.inj hr
      rw [hself] at hmem
      rw [hlist]
      exact List.mem_cons_of_mem _ hmem
    · rwa [hframe.1 _ _ hx (by simp)] at hmem
  · by_cases hx : (RlId.txc t', c') = ((.txc t : RlId K D), c)
    · obtain ⟨hr, rfl⟩ := Prod.mk.inj hx
      obtain rfl := RlId.txc.inj hr
      rw [happends, List.mem_append] at hmem
      rcases hmem with hmem | hmem
      · exact (h.root _ _ _ hmem).trans hreach
      · obtain ⟨n, hget⟩ := List.mem_iff_getElem?.mp hmem
        exact ⟨d, pkt, s, s', _, n, h.dest t' d c' pkt (by rw [hlist]; exact List.mem_cons_self ..),
          hhead, htokens, hforward, happends, hget, .refl⟩
    · rw [hframe.1 _ _ (by simp) hx] at hmem
      exact (h.root _ _ _ hmem).trans hreach

/-- A packet leaves for the device. -/
theorem Tracked.transmit (h : Tracked p k t₀ ops s) {t : K} {c : C} {pkt : Skb} {rest : List Skb}
    (hlist : (s.q (.txc t) c).list = pkt :: rest) (htokens : pkt.size ≤ (s.q (.txc t) c).tokens)
    (hforward : forward p k (.txc t) c pkt s = some s') : Tracked p k t₀ ops s' := by
  have hhead : (s.q (.txc t) c).list.head? = some pkt := by rw [hlist, List.head?_cons]
  have hreach : Reaches p k s s' := Reaches.forward .refl hhead htokens hforward
  have hself := list_forward hlist hforward
  have hframe : (∀ r' c', (r', c') ≠ (.txc t, c) → s'.q r' c' = s.q r' c') ∧
      ∀ c' skb, Event.xmit c' skb ∈ s'.trace → Event.xmit c' skb ∈ s.trace ∨
      c' = c ∧ skb = pkt := by
    unfold forward at hforward
    obtain rfl := Option.some.inj hforward
    refine ⟨fun r' c' hne => ?_, fun c' skb hmem => ?_⟩
    · rw [TxState.q_modifyCb, q_charge_of_ne _ _ hne, TxState.q_log, q_skbDequeue_of_ne _ hne]
    · have hmem : Event.xmit c' skb ∈ (s.trace ++ [.xmit c pkt]) ++ [_] := hmem
      rw [List.mem_append, List.mem_append, List.mem_singleton, List.mem_singleton] at hmem
      rcases hmem with (hmem | hmem) | hmem
      · exact Or.inl hmem
      · exact Or.inr ((Event.xmit.injEq ..).mp hmem)
      · exact nomatch hmem
  refine ⟨h.reachable.trans hreach, fun t' d' c' skb hmem => ?_, fun t' c' skb hmem => ?_,
    fun c' skb hmem => ?_⟩
  · rw [hframe.1 _ _ (by simp)] at hmem
    exact (h.dest _ _ _ _ hmem).trans hreach
  · refine (h.root t' c' skb ?_).trans hreach
    by_cases hx : (RlId.txc t', c') = ((.txc t : RlId K D), c)
    · obtain ⟨hr, rfl⟩ := Prod.mk.inj hx
      obtain rfl := RlId.txc.inj hr
      rw [hself] at hmem
      rw [hlist]
      exact List.mem_cons_of_mem _ hmem
    · rwa [hframe.1 _ _ hx] at hmem
  · rcases hframe.2 c' skb hmem with hold | ⟨rfl, rfl⟩
    · exact h.sent c' skb hold
    · exact (h.root t c' skb (by rw [hlist]; exact List.mem_cons_self ..)).journey hhead htokens

/-- A small step by which no packet comes in. -/
theorem Tracked.inner (h : Tracked p k t₀ ops s) (hstep : Inner p k s s') :
    Tracked p k t₀ ops s' := by
  rcases hstep.still_or_forward with hstill | ⟨r, c, pkt, rest, hlist, htokens, hforward⟩
  · exact h.still (.single (Or.inl (Small.inner hstep))) hstill
  · cases r with
    | txc t => exact h.transmit hlist htokens hforward
    | dest t d => exact h.pass hlist htokens hforward

variable [Fintype C]

theorem Tracked.step (h : Tracked p k t₀ ops s) {op : Op K D C} (hmem : op ∈ ops)
    (hop : ∀ t d c skb, op ≠ .enqueue t d c skb) (hip : ∀ t d c skb, op = .tx t d c skb →
      skb.isIp = true) :
    Tracked p k t₀ ops (step p k s op) := by
  have hpath : ∀ {s s' : TxState K D C}, IsPath (Inner p k) s s' → Tracked p k t₀ ops s →
      Tracked p k t₀ ops s' := fun hpath h =>
      path_invariant (fun _ _ hstep h => h.inner hstep) hpath h
  by_cases hinternal : op.Internal
  · rcases step_inner_path (p := p) (k := k) s hinternal with hinner | hwrite
    · exact hpath hinner h
    · exact h.still (.single (Or.inr hwrite)) hwrite.still
  · cases op with
    | tx t d c skb =>
      exact hpath (isoRlDequeue_path (.dest t d) c _) (h.enqueue hmem (hip t d c skb rfl))
    | enqueue t d c skb => exact absurd rfl (hop t d c skb)
    | _ => exact absurd trivial hinternal

/-- Every packet that a run transmits ends the journey of a packet that `iso_tx` was called with. -/
theorem runFrom_journey (hops : ∀ t d c skb, Op.enqueue t d c skb ∉ ops)
    (hip : ∀ t d c skb, Op.tx t d c skb ∈ ops → skb.isIp = true) {c : C} {skb : Skb}
    (hmem : Event.xmit c skb ∈ (runFrom p k t₀ ops).trace) :
    ∃ j : Journey C p k t₀, j.c = c ∧ j.sent = skb ∧ Op.tx j.t j.d j.c j.pkt ∈ ops := by
  have hinit : Tracked p k t₀ ops (TxState.init p t₀) :=
    ⟨.refl, fun _ _ _ _ hmem => absurd hmem List.not_mem_nil,
      fun _ _ _ hmem => absurd hmem List.not_mem_nil, fun _ _ hmem => absurd hmem List.not_mem_nil⟩
  have htracked : Tracked p k t₀ ops (runFrom p k t₀ ops) := by
    refine run_invariant (Rl.step p k) (fun s op (hop : op ∈ ops) h => h.step hop ?_ ?_) hinit
      fun _ hop => hop
    · rintro t d c skb rfl
      exact hops t d c skb hop
    · rintro t d c skb rfl
      exact hip t d c skb hop
  exact htracked.sent c skb hmem

end Runs

/-! ### Journeys through runs -/

/-- A journey with nothing but whole operations between its hops: `before` the packet comes in,
`between` the hops, and `after` the second. -/
structure Itinerary (K D C : Type) where
  t : K
  d : D
  c : C
  pkt : Skb
  before : List (Op K D C)
  atDest : List Skb
  queued : Skb
  between : List (Op K D C)
  atClass : List Skb
  n : ℕ
  sent : Skb
  after : List (Op K D C)

namespace Itinerary

variable [Fintype C] (p : Params) (k : Kernel) (t₀ : RlId K D → ℕ) (i : Itinerary K D C)

def entry : TxState K D C := runFrom p k t₀ i.before

def pass : TxState K D C :=
  run (step p k) (isoRlEnqueue p k (.dest i.t i.d) i.pkt.isoEnableEcn i.c (i.entry p k t₀)).2
    i.between

def passed : Option (TxState K D C) := forward p k (.dest i.t i.d) i.c i.queued (i.pass p k t₀)

def exit : Option (TxState K D C) := (i.passed p k t₀).map fun s => run (step p k) s i.after

/-- The hops are as the itinerary has them. -/
def Valid : Prop :=
  i.pkt.isIp = true ∧
  ((isoRlEnqueue p k (.dest i.t i.d) i.pkt.isoEnableEcn i.c (i.entry p k t₀)).2.q
    (.dest i.t i.d) i.c).list
    = ((i.entry p k t₀).q (.dest i.t i.d) i.c).list ++ i.atDest ∧
  i.queued ∈ i.atDest ∧
  ((i.pass p k t₀).q (.dest i.t i.d) i.c).list.head? = some i.queued ∧
  i.queued.size ≤ ((i.pass p k t₀).q (.dest i.t i.d) i.c).tokens ∧
  (i.passed p k t₀).isSome ∧
  i.atClass[i.n]? = some i.sent ∧
  (∀ s ∈ i.passed p k t₀,
    (s.q (.txc i.t) i.c).list = ((i.pass p k t₀).q (.txc i.t) i.c).list ++ i.atClass) ∧
  ∀ s ∈ i.exit p k t₀, (s.q (.txc i.t) i.c).list.head? = some i.sent ∧
    i.sent.size ≤ (s.q (.txc i.t) i.c).tokens

instance : Decidable (i.Valid p k t₀) := inferInstanceAs (Decidable (_ ∧ _))

variable {p k t₀ i}

theorem reaches_run (s : TxState K D C) (ops : List (Op K D C)) :
    Reaches p k s (run (step p k) s ops) := by
  have hstep : ∀ s' (op : Op K D C), True → Reaches p k s s' → Reaches p k s (step p k s' op) := by
    intro s' op _ h
    rcases step_path (p := p) (k := k) s' op with hpath | hwrite
    · exact h.trans (Relation.ReflTransGen.mono (fun _ _ => Or.inl) _ _ hpath)
    · exact h.tail (Or.inr hwrite)
  exact run_invariant (step p k) hstep .refl fun _ _ => trivial

/-- The journey of a valid itinerary. -/
def journey (h : i.Valid p k t₀) : Journey C p k t₀ where
  t := i.t
  d := i.d
  c := i.c
  pkt := i.pkt
  isIp := h.1
  entry := i.entry p k t₀
  entry_reachable := reaches_run _ _
  atDest := i.atDest
  enters := h.2.1
  queued := i.queued
  queued_mem := h.2.2.1
  pass := i.pass p k t₀
  pass_reachable := reaches_run _ _
  pass_head := h.2.2.2.1
  pass_tokens := h.2.2.2.2.1
  passed := (i.passed p k t₀).get h.2.2.2.2.2.1
  pass_forward := (Option.some_get _).symm
  atClass := i.atClass
  appends := h.2.2.2.2.2.2.2.1 _ (Option.get_mem _)
  n := i.n
  sent := i.sent
  sent_eq := h.2.2.2.2.2.2.1
  exit := run (step p k) ((i.passed p k t₀).get h.2.2.2.2.2.1) i.after
  exit_reachable := reaches_run _ _
  exit_head := (h.2.2.2.2.2.2.2.2 _ (Option.mem_map_of_mem _ (Option.get_mem _))).1
  exit_tokens := (h.2.2.2.2.2.2.2.2 _ (Option.mem_map_of_mem _ (Option.get_mem _))).2

end Itinerary

/-- A kernel whose clock advances by a millisecond with each reading, and that cuts a packet in
two. -/
def tickKernel : Kernel where
  ktime n := n * 1000000
  ktime_mono := fun _ _ h => Nat.mul_le_mul_right _ h
  trylock _ := true
  skbGsoSegment skb := some
    [{ skb with
        ptr := 2 * skb.ptr, len := skb.len / 2, len_le := (Nat.div_le_self ..).trans skb.len_le },
      { skb with
        ptr := 2 * skb.ptr + 1, len := skb.len / 2,
        len_le := (Nat.div_le_self ..).trans skb.len_le }]

theorem tickKernel_copiesHeader : CopiesHeader tickKernel := by
  intro pkt segs hsegs skb hmem
  obtain rfl := Option.some.inj hsegs
  simp only [List.mem_cons, List.not_mem_nil, or_false] at hmem
  rcases hmem with rfl | rfl
  · exact ⟨rfl, rfl⟩
  · exact ⟨rfl, rfl⟩

/-- A packet of `n` bytes with the given `tos`. -/
def tosPacket (ptr n : ℕ) (tos : UInt8) (h : n - 14 ≤ maxLen := by decide) : Skb :=
  ⟨ptr, n - 14, true, 1, 2, 6, tos, 0, h⟩

/-- A packet of 1500 bytes that finds all queues empty. -/
def lonePacket (tos tos' : UInt8) : Itinerary Unit Unit Unit where
  t := ()
  d := ()
  c := ()
  pkt := tosPacket 1 1500 tos
  before := []
  atDest := [tosPacket 1 1500 tos']
  queued := tosPacket 1 1500 tos'
  between := [.dequeue (.dest () ()) (), .borrow (.dest () ()) ()]
  atClass := [tosPacket 1 1500 tos']
  n := 0
  sent := tosPacket 1 1500 tos'
  after := [.dequeue (.txc ()) (), .borrow (.txc ()) ()]

/-- A packet of 60000 bytes behind another one, in a class that has the given rate: what comes of it
at the class level, and the `n`-th of these. -/
def secondPacket (rate : ℕ) (tos tos' : UInt8) (atClass : List Skb) (n : ℕ) (sent : Skb)
    (after : List (Op Unit Unit Unit)) : Itinerary Unit Unit Unit where
  t := ()
  d := ()
  c := ()
  pkt := tosPacket 2 60000 tos
  before := [.classRate () rate, .tx () () () (tosPacket 1 60000 0)]
  atDest := [tosPacket 2 60000 tos']
  queued := tosPacket 2 60000 tos'
  between := [.dequeue (.dest () ()) (), .clock (.dest () ()), .borrow (.dest () ()) ()]
  atClass := atClass
  n := n
  sent := sent
  after := after

/-- At 5000 Mbit/s, the second packet is appended whole. -/
def secondWhole : Itinerary Unit Unit Unit :=
  secondPacket 5000 0xb8 0xba [tosPacket 2 60000 0x3] 0 (tosPacket 2 60000 0x3)
    [.dequeue (.txc ()) (), .clock (.txc ()), .borrow (.txc ()) ()]

/-- At 100 Mbit/s, it is cut in two.  This is the second half. -/
def secondHalf : Itinerary Unit Unit Unit :=
  secondPacket 100 0 0x2 [tosPacket 4 30007 0x2, tosPacket 5 30007 0x2] 1 (tosPacket 5 30007 0x2)
    [.dequeue (.txc ()) (), .clock (.txc ()), .dequeue (.txc ()) (),
      .clock (.txc ()), .clock (.txc ()), .borrow (.txc ()) ()]

theorem lonePacket_valid : (lonePacket 0xb8 0xba).Valid {} tickKernel fun _ => 0 := by
  decide +kernel

theorem lonePacket_ect1_valid : (lonePacket 0x1 0x3).Valid {} tickKernel fun _ => 0 := by
  decide +kernel

theorem secondWhole_valid : secondWhole.Valid {} tickKernel fun _ => 0 := by decide +kernel

theorem secondHalf_valid : secondHalf.Valid {} tickKernel fun _ => 0 := by decide +kernel

/-- Expedited forwarding keeps its codepoint when all queues are empty. -/
theorem Journey.dscp_lonePacket : CopiesHeader tickKernel ∧
    (Itinerary.journey lonePacket_valid).sent.dscp =
    (Itinerary.journey lonePacket_valid).pkt.dscp :=
  ⟨tickKernel_copiesHeader,
    ((Itinerary.journey lonePacket_valid).dscp_iff tickKernel_copiesHeader).mpr
      (Or.inr (Or.inr (by decide +kernel)))⟩

/-- It loses it when the class-level queue is above the threshold: the mark leaves `tos` at
`0x03`. -/
theorem Journey.dscp_secondWhole : CopiesHeader tickKernel ∧
    (Itinerary.journey secondWhole_valid).sent.dscp ≠
    (Itinerary.journey secondWhole_valid).pkt.dscp :=
  ⟨tickKernel_copiesHeader, by decide +kernel⟩

/-- A packet without ECN gets no mark when all queues are empty. -/
theorem Journey.ce_lonePacket : CopiesHeader tickKernel ∧
    ((Itinerary.journey lonePacket_valid).sent.ecn = 3 ↔
      (Itinerary.journey lonePacket_valid).pkt.ecn = 3 ∨
      ({} : Params).isoTxMarkThresh < (Itinerary.journey lonePacket_valid).bytesAfter) :=
  ⟨tickKernel_copiesHeader,
    ((Itinerary.journey lonePacket_valid).ce_iff tickKernel_copiesHeader).mpr
      ⟨fun h => absurd h (by decide +kernel), fun h => absurd h (by decide +kernel)⟩⟩

/-- A packet with ECT(1) leaves with a mark though all queues are empty, and half of a packet that
was split leaves without one though the class-level queue is above the threshold. -/
theorem Journey.ce_false : CopiesHeader tickKernel ∧
    ¬ ((Itinerary.journey lonePacket_ect1_valid).sent.ecn = 3 ↔
      (Itinerary.journey lonePacket_ect1_valid).pkt.ecn = 3 ∨
        ({} : Params).isoTxMarkThresh < (Itinerary.journey lonePacket_ect1_valid).bytesAfter) ∧
    ¬ ((Itinerary.journey secondHalf_valid).sent.ecn = 3 ↔
      (Itinerary.journey secondHalf_valid).pkt.ecn = 3 ∨
        ({} : Params).isoTxMarkThresh < (Itinerary.journey secondHalf_valid).bytesAfter) := by
  refine ⟨tickKernel_copiesHeader, ?_, ?_⟩
  · decide +kernel
  · decide +kernel

end EyeQ.Rl
