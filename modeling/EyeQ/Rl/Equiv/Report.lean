import EyeQ.Rl.Equiv.Wakeup

/-!
# What `iso_rl_dequeue` reports

`iso_rl_dequeue` returns `sum`, which its caller adds up as the bytes sent.  The loop adds the size
of a packet to `sum` when it looks at it, not when it sends it; so if the loop stops at a packet,
that packet has been counted and not sent.

`isoRlDequeue_reports_iff` says when the returned value is what the queue has sent: when the call
gives up before it looks at the queue (`GivesUp`), and when it can empty the queue (`Drains`).
-/

namespace EyeQ.Rl

variable {K D C : Type} [DecidableEq K] [DecidableEq D] [DecidableEq C]

/-- The size of all packets of a queue. -/
def Queue.total (q : Queue) : ℕ := (q.list.map Skb.size).sum

/-- The class-level queue has space for the packets, one after the other. -/
def HasSpaceForAll (p : Params) (k : Kernel) (t : K) (c : C) : List Skb → TxState K D C → Prop
  | [], _ => True
  | pkt :: rest, s => isoRlHasSpaceFor p (.txc t) pkt c s = true ∧
    HasSpaceForAll p k t c rest (isoRlEnqueue p k (.txc t) pkt c s).2

/-- There is space for the packets where they are sent to.  The device takes every packet. -/
def OnwardSpace (p : Params) (k : Kernel) (c : C) : RlId K D → List Skb → TxState K D C → Prop
  | .txc _, _, _ => True
  | .dest t _, pkts, s => HasSpaceForAll p k t c pkts s

/-- The queue needs the pool, and the lock of the pool is taken. -/
def GivesUp (k : Kernel) (r : RlId K D) (c : C) (s : TxState K D C) : Prop :=
  (s.q r c).tokens < (s.q r c).firstPktSize ∧ k.trylock s.tries = false

/-- The tokens that the queue can spend: its own, and the whole pool if its own do not do. -/
def spendable (r : RlId K D) (c : C) (s : TxState K D C) : ℕ :=
  if (s.q r c).tokens < (s.q r c).firstPktSize then u64 ((s.q r c).tokens + (s.rl r).totalTokens)
  else (s.q r c).tokens

/-- The tokens, the burst and the space are enough for all packets of the queue. -/
structure Drains (p : Params) (k : Kernel) (r : RlId K D) (c : C) (s : TxState K D C) : Prop where
  tokens : (s.q r c).total ≤ spendable r c s
  burst : (s.q r c).total ≤ p.isoMinBurstBytes * 2
  space : OnwardSpace p k c r (s.q r c).list s

/-- The returned value is the number of bytes that the queue has sent. -/
def Reports [Fintype C] (p : Params) (k : Kernel) (r : RlId K D) (c : C) (s : TxState K D C) :
    Prop :=
  ∃ sent : List Skb, (s.q r c).list = sent ++ ((isoRlDequeue p k r c s).2.q r c).list ∧
    ((isoRlDequeue p k r c s).2.q r c).bytesXmit = (s.q r c).bytesXmit + (sent.map Skb.size).sum ∧
    (isoRlDequeue p k r c s).1 = (sent.map Skb.size).sum

/-! ### What an enqueue depends on -/

/-- The limiter `r` is the same, and so is the time. -/
structure Agrees (r : RlId K D) (s s' : TxState K D C) : Prop where
  rl : s'.rl r = s.rl r
  reads : s'.reads = s.reads

section Agrees

variable {p : Params} {k : Kernel} {r : RlId K D} {c : C} {s s' : TxState K D C}

omit [DecidableEq K] [DecidableEq D] [DecidableEq C] in
theorem Agrees.q (h : Agrees r s s') : s'.q r c = s.q r c := by
  rw [TxState.q, h.rl, TxState.q]

omit [DecidableEq K] [DecidableEq D] [DecidableEq C] in
theorem Agrees.log (h : Agrees r s s') (e e' : Event K D C) : Agrees r (s.log e) (s'.log e') :=
  ⟨h.rl, h.reads⟩

theorem Agrees.queueTail (h : Agrees r s s') (skb : Skb) :
    Agrees r (queueTail r c skb s) (queueTail r c skb s') where
  rl := by
    unfold Rl.queueTail TxState.modifyQ
    rw [TxState.rl_modifyRl_self, TxState.rl_modifyRl_self, h.rl]
  reads := h.reads

omit [DecidableEq C] in
theorem Agrees.isoRlClock (h : Agrees r s s') :
    Agrees r (isoRlClock p k r s) (isoRlClock p k r s') := by
  unfold Rl.isoRlClock
  rw [h.rl, h.reads]
  split_ifs
  · constructor
    · show (s'.read.modifyRl r _).rl r = (s.read.modifyRl r _).rl r
      rw [TxState.rl_modifyRl_self, TxState.rl_modifyRl_self]
      show refill p (k.ktime (s'.reads + 1)) (s'.rl r) = refill p (k.ktime (s.reads + 1)) (s.rl r)
      rw [h.rl, h.reads]
    · show s'.reads + 1 + 1 = s.reads + 1 + 1
      rw [h.reads]
  · refine ⟨h.rl, ?_⟩
    show s'.reads + 1 = s.reads + 1
    rw [h.reads]

theorem Agrees.appendWhole (h : Agrees r s s') (pkt : Skb) :
    Agrees r (appendWhole p r c pkt s) (appendWhole p r c pkt s') := by
  unfold Rl.appendWhole
  cases r with
  | txc t =>
    dsimp only
    rw [h.q]
    split_ifs
    · exact h.queueTail _
    · exact h.queueTail _
  | dest t d => exact h.queueTail _

theorem Agrees.foldl_appendSegment (h : Agrees r s s') (segs : List Skb) :
    Agrees r (segs.foldl (appendSegment p r c) s) (segs.foldl (appendSegment p r c) s') := by
  induction segs generalizing s s' with
  | nil => exact h
  | cons skb segs ih =>
    refine ih ?_
    unfold appendSegment
    rw [h.q]
    split_ifs
    · exact h.queueTail _
    · exact h.log _ _

theorem Agrees.isoRlEnqueue (h : Agrees r s s') (pkt : Skb) :
    Agrees r (isoRlEnqueue p k r pkt c s).2 (isoRlEnqueue p k r pkt c s').2 := by
  have hclock := h.isoRlClock (p := p) (k := k)
  unfold Rl.isoRlEnqueue
  dsimp only
  rw [hclock.q, hclock.rl]
  split_ifs
  · exact hclock
  · exact ((hclock.log _ _).log _ _).appendWhole _
  · exact (hclock.log _ _).appendWhole _
  · cases k.skbGsoSegment pkt with
    | none => exact hclock.log _ _
    | some segs => exact (((hclock.log _ _).log _ _).log _ _).foldl_appendSegment segs

theorem Agrees.hasSpaceForAll {t : K} (h : Agrees (.txc t) s s') (pkts : List Skb) :
    HasSpaceForAll p k t c pkts s' ↔ HasSpaceForAll p k t c pkts s := by
  induction pkts generalizing s s' with
  | nil => exact Iff.rfl
  | cons pkt rest ih =>
    rw [HasSpaceForAll, HasSpaceForAll, ih (h.isoRlEnqueue pkt)]
    rw [isoRlHasSpaceFor, isoRlHasSpaceFor, h.q]

/-- Whether there is space does not depend on the queue that sends. -/
theorem onwardSpace_congr (hrl : ∀ r', r' ≠ r → s'.rl r' = s.rl r') (hreads : s'.reads = s.reads)
    (pkts : List Skb) : OnwardSpace p k c r pkts s' ↔ OnwardSpace p k c r pkts s := by
  cases r with
  | txc t => exact Iff.rfl
  | dest t d =>
    have hagree : Agrees (.txc t) s s' := ⟨hrl _ (by simp), hreads⟩
    exact hagree.hasSpaceForAll pkts

end Agrees

/-! ### The loop -/

section Loop

variable {p : Params} {k : Kernel} {r : RlId K D} {c : C}

/-- The queue after its first packet has been sent. -/
theorem q_forward_self {pkt : Skb} {s s' : TxState K D C} (h : forward p k r c pkt s = some s') :
    s'.q r c = { s.q r c with
      list := (s.q r c).list.tail
      tokens := sub64 (s.q r c).tokens pkt.size
      bytesEnqueued := sub64 (s.q r c).bytesEnqueued pkt.size
      bytesXmit := (s.q r c).bytesXmit + pkt.size } := by
  unfold forward at h
  cases r with
  | txc t =>
    obtain rfl := Option.some.inj h
    simp
  | dest t d =>
    dsimp only at h
    split_ifs at h
    obtain rfl := Option.some.inj h
    have htouch := isoRlEnqueue_touches p k (.txc t) pkt c (skbDequeue (.dest t d) c s)
    have hne : ((.dest t d, c) : RlId K D × C) ≠ (.txc t, c) := by simp
    have hq := htouch.q hne
    simp [hq]

/-- A packet is sent exactly if there is space for it; the rest find the space it has left. -/
theorem onwardSpace_cons_iff {pkt : Skb} {rest : List Skb} {s : TxState K D C} :
    OnwardSpace p k c r (pkt :: rest) s ↔
      ∃ s', forward p k r c pkt s = some s' ∧ OnwardSpace p k c r rest s' := by
  cases r with
  | txc t =>
    refine iff_of_true trivial ⟨_, rfl, trivial⟩
  | dest t d =>
    have hagree : Agrees (.txc t) (isoRlEnqueue p k (.txc t) pkt c s).2
        (charge (.dest t d) c pkt.size
          (isoRlEnqueue p k (.txc t) pkt c (skbDequeue (.dest t d) c s)).2) := by
      have hdequeue : Agrees (.txc t) s (skbDequeue (.dest t d) c s) := by
        refine ⟨?_, rfl⟩
        rw [skbDequeue, TxState.modifyQ, TxState.rl_modifyRl_of_ne _ _ (by simp)]
      have henqueue := hdequeue.isoRlEnqueue (p := p) (k := k) (c := c) pkt
      refine ⟨?_, henqueue.reads⟩
      rw [charge, TxState.modifyQ, TxState.rl_modifyRl_of_ne _ _ (by simp)]
      exact henqueue.rl
    have hspace : isoRlHasSpaceFor p (.txc t) pkt c (skbDequeue (.dest t d) c s)
        = isoRlHasSpaceFor p (.txc t) pkt c s := by
      rw [isoRlHasSpaceFor, isoRlHasSpaceFor, q_skbDequeue_of_ne _ (by simp)]
    rw [OnwardSpace, HasSpaceForAll, forward]
    constructor
    · rintro ⟨hroom, hrest⟩
      refine ⟨_, if_pos hroom, ?_⟩
      exact (hagree.hasSpaceForAll rest).mpr hrest
    · rintro ⟨s', hs', hrest⟩
      split_ifs at hs' with hroom
      obtain rfl := Option.some.inj hs'
      exact ⟨hroom, (hagree.hasSpaceForAll rest).mp hrest⟩

/-- The loop over `pkts`, from `sum` on, has sent the packets `sent` and has left `left`; the first
of these it has counted. -/
structure Sends (p : Params) (k : Kernel) (r : RlId K D) (c : C) (pkts : List Skb) (sum : ℕ)
    (s : TxState K D C) (result : (Bool × ℕ) × TxState K D C) (sent left : List Skb) : Prop where
  pkts_eq : pkts = sent ++ left
  list : (result.2.q r c).list = left
  bytesXmit : (result.2.q r c).bytesXmit = (s.q r c).bytesXmit + (sent.map Skb.size).sum
  counted : result.1.2 = sum + (sent.map Skb.size).sum + ((left.take 1).map Skb.size).sum
  drained : left = [] ↔ (pkts.map Skb.size).sum ≤ (s.q r c).tokens ∧
    (pkts ≠ [] → sum + (pkts.map Skb.size).sum ≤ p.isoMinBurstBytes * 2) ∧
    OnwardSpace p k c r pkts s

theorem dequeueLoop_sends : ∀ (pkts : List Skb) (sum : ℕ) (s : TxState K D C),
    (s.q r c).list = pkts → (s.q r c).tokens < 2 ^ 64 →
      ∃ sent left, Sends p k r c pkts sum s (dequeueLoop p k r c pkts sum s) sent left := by
  intro pkts
  induction pkts with
  | nil =>
    intro sum s hlist _
    have hspace : OnwardSpace p k c r [] s := by
      cases r with
      | txc t => trivial
      | dest t d => trivial
    exact ⟨[], [], rfl, hlist, rfl, rfl,
      iff_of_true rfl ⟨Nat.zero_le _, fun h => absurd rfl h, hspace⟩⟩
  | cons pkt rest ih =>
    intro sum s hlist htokens
    have hq : (peek r c pkt s).q r c = { s.q r c with firstPktSize := pkt.size } := q_peek_self ..
    have hspace : OnwardSpace p k c r (pkt :: rest) (peek r c pkt s) ↔
        OnwardSpace p k c r (pkt :: rest) s := by
      have hrl : ∀ r', r' ≠ r → (peek r c pkt s).rl r' = s.rl r' := by
        intro r' hr
        exact Function.update_of_ne hr ..
      exact onwardSpace_congr hrl rfl _
    -- if the loop stops at this packet, something was not enough
    have hstop : ¬ (pkt.size + (rest.map Skb.size).sum ≤ (s.q r c).tokens ∧
          sum + (pkt.size + (rest.map Skb.size).sum) ≤ p.isoMinBurstBytes * 2 ∧
          OnwardSpace p k c r (pkt :: rest) s) →
        Sends p k r c (pkt :: rest) sum s ((true, sum + pkt.size), peek r c pkt s) []
          (pkt :: rest) := by
      intro hnot
      refine ⟨rfl, ?_, ?_, by simp, iff_of_false (List.cons_ne_nil _ _) fun h => hnot ?_⟩
      · rw [hq]
        exact hlist
      · rw [hq]
        rfl
      · simpa using h
    by_cases hguard : pkt.size ≤ (s.q r c).tokens ∧ sum + pkt.size ≤ p.isoMinBurstBytes * 2
    · cases hfwd : forward p k r c pkt (peek r c pkt s) with
      | none =>
        have heq : dequeueLoop p k r c (pkt :: rest) sum s
            = ((true, sum + pkt.size), peek r c pkt s) := by
          rw [dequeueLoop]
          simp only [hq, hguard, and_self, ↓reduceIte, hfwd]
        rw [heq]
        refine ⟨_, _, hstop fun h => ?_⟩
        obtain ⟨s', hs', -⟩ := onwardSpace_cons_iff.mp (hspace.mpr h.2.2)
        exact Option.some_ne_none _ (hs'.symm.trans hfwd)
      | some s' =>
        have heq : dequeueLoop p k r c (pkt :: rest) sum s
            = dequeueLoop p k r c rest (sum + pkt.size) s' := by
          rw [dequeueLoop]
          simp only [hq, hguard, and_self, ↓reduceIte, hfwd]
        have hq' := q_forward_self hfwd
        rw [hq] at hq'
        have hlist' : (s'.q r c).list = rest := by
          rw [hq']
          simp [hlist]
        have htokens' : (s'.q r c).tokens = (s.q r c).tokens - pkt.size := by
          rw [hq']
          exact sub64_of_le hguard.1 htokens
        have hxmit' : (s'.q r c).bytesXmit = (s.q r c).bytesXmit + pkt.size := by
          rw [hq']
        have hrest : OnwardSpace p k c r (pkt :: rest) s ↔ OnwardSpace p k c r rest s' := by
          rw [← hspace, onwardSpace_cons_iff]
          constructor
          · rintro ⟨s'', hs'', h⟩
            obtain rfl := Option.some.inj (hfwd.symm.trans hs'')
            exact h
          · exact fun h => ⟨s', hfwd, h⟩
        obtain ⟨sent, left, hsends⟩ := ih (sum + pkt.size) s' hlist' (by omega)
        rw [heq]
        refine ⟨pkt :: sent, left, ?_, hsends.list, ?_, ?_, ?_⟩
        · rw [hsends.pkts_eq, List.cons_append]
        · rw [hsends.bytesXmit, hxmit', List.map_cons, List.sum_cons, Nat.add_assoc]
        · rw [hsends.counted, List.map_cons, List.sum_cons, Nat.add_assoc sum]
        · rw [hsends.drained, htokens', hrest, List.map_cons, List.sum_cons]
          refine and_congr ⟨fun h => by omega, fun h => by omega⟩ (and_congr_left fun _ => ?_)
          constructor
          · intro h _
            by_cases hnil : rest = []
            · subst hnil
              simpa using hguard.2
            · have := h hnil
              omega
          · intro h _
            have := h (List.cons_ne_nil _ _)
            omega
    · have heq : dequeueLoop p k r c (pkt :: rest) sum s
          = ((true, sum + pkt.size), peek r c pkt s) := by
        rw [dequeueLoop]
        simp only [hq, hguard, ↓reduceIte]
      rw [heq]
      exact ⟨_, _, hstop fun h => hguard ⟨by omega, by omega⟩⟩

end Loop

/-! ### Before and after the loop -/

section Call

variable [Fintype C] {p : Params} {k : Kernel} {r : RlId K D} {c : C} {s : TxState K D C}

@[simp] theorem q_waitForTimer (r' : RlId K D) (c' : C) :
    (waitForTimer r c s).q r' c' = s.q r' c' := by
  unfold waitForTimer startTimer linkActive
  split_ifs <;> rfl

section

omit [Fintype C]

theorem isoRlBorrowTokens_of_not_lock (h : k.trylock s.tries = false) :
    isoRlBorrowTokens p k r c s = (true, s.tryLock) := by
  unfold isoRlBorrowTokens
  simp [h]

theorem isoRlBorrowTokens_of_lock (h : k.trylock s.tries = true) :
    (isoRlBorrowTokens p k r c s).1 = false ∧ Borrowed r c s (isoRlBorrowTokens p k r c s).2 := by
  unfold isoRlBorrowTokens
  simp only [ge_iff_le, le_refl, ↓reduceIte, ite_self, h]
  exact ⟨trivial, borrowed_modify r c s⟩

theorem rl_isoRlBorrowTokens_of_ne {r' : RlId K D} (hr : r' ≠ r) :
    (isoRlBorrowTokens p k r c s).2.rl r' = s.rl r' := by
  unfold isoRlBorrowTokens
  simp only [ge_iff_le, le_refl, ↓reduceIte, ite_self]
  split_ifs
  · rw [TxState.modifyQ, TxState.rl_modifyRl_of_ne _ _ hr, TxState.rl_modifyRl_of_ne _ _ hr]
    rfl
  · rfl

end

/-- A call of `iso_rl_dequeue` that does not give up runs the loop in a state `s₁`, in which the
queue has the tokens it can spend, and goes on without the queue. -/
theorem dequeueWith_of_not_givesUp {unlock : TxState K D C → TxState K D C}
    (hunlock : ∀ s, (unlock s).q r c = s.q r c) (h : ¬ GivesUp k r c s) :
    ∃ s₁ : TxState K D C, (s₁.q r c) = { s.q r c with tokens := spendable r c s } ∧
      (∀ r', r' ≠ r → s₁.rl r' = s.rl r') ∧ s₁.reads = s.reads ∧
      (dequeueWith unlock p k r c s).1 = u32 (dequeueLoop p k r c (s.q r c).list 0 s₁).1.2 ∧
      (dequeueWith unlock p k r c s).2.q r c
        = (dequeueLoop p k r c (s.q r c).list 0 s₁).2.q r c := by
  -- what follows once the tokens are there
  have hrest : ∀ s₁ : TxState K D C, (s₁.q r c).list = (s.q r c).list →
      dequeueWith unlock p k r c s = afterBorrow unlock p k r c false s₁ →
      (dequeueWith unlock p k r c s).1 = u32 (dequeueLoop p k r c (s.q r c).list 0 s₁).1.2 ∧
      (dequeueWith unlock p k r c s).2.q r c
        = (dequeueLoop p k r c (s.q r c).list 0 s₁).2.q r c := by
    intro s₁ hlist heq
    rw [heq, ← hlist]
    refine ⟨rfl, ?_⟩
    simp only [afterBorrow, Bool.false_eq_true, ↓reduceIte]
    split_ifs
    · rw [q_waitForTimer, hunlock]
    · rw [hunlock]
  by_cases hlow : (s.q r c).tokens < (s.q r c).firstPktSize
  · have hlock : k.trylock s.tries = true := by
      by_contra hlock
      exact h ⟨hlow, Bool.eq_false_iff.mpr hlock⟩
    obtain ⟨hnot, hb⟩ := isoRlBorrowTokens_of_lock (p := p) (r := r) (c := c) hlock
    refine ⟨(isoRlBorrowTokens p k r c s).2, ?_,
      fun r' hr => rl_isoRlBorrowTokens_of_ne hr, hb.reads, hrest _ (by rw [hb.self]) ?_⟩
    · rw [hb.self, spendable, if_pos hlow]
      rfl
    · rw [dequeueWith_of_lt unlock hlow, hnot]
  · refine ⟨s, ?_, fun _ _ => rfl, rfl, hrest s rfl ?_⟩
    · rw [spendable, if_neg hlow]
    · rw [dequeueWith_of_not_lt unlock hlow]

theorem dequeueWith_of_givesUp (unlock : TxState K D C → TxState K D C) (h : GivesUp k r c s) :
    (dequeueWith unlock p k r c s).1 = 0 ∧ (dequeueWith unlock p k r c s).2.q r c = s.q r c := by
  rw [dequeueWith, if_pos h.1, isoRlBorrowTokens_of_not_lock h.2]
  dsimp only
  refine ⟨rfl, ?_⟩
  simp only [↓reduceIte]
  split_ifs
  · rfl
  · rw [q_waitForTimer, TxState.q_tryLock]

/-- The dequeue of a class-level queue leaves all other queues alone. -/
theorem q_dequeueWith_txc_of_ne {t : K} {r' : RlId K D} {c' : C} (hne : (r', c') ≠ (.txc t, c)) :
    (dequeueWith id p k (.txc t) c s).2.q r' c' = s.q r' c' := by
  refine dequeueWith_keeps (P := fun s' => s'.q r' c' = s.q r' c') ?_ ?_ (fun _ h => h) ?_ rfl
  · intro s₁ h _
    rcases isoRlBorrowTokens_cases p k (.txc t) c s₁ with heq | ⟨-, hb⟩
    · rw [heq]
      exact h
    · exact (hb.other r' c' hne).trans h
  · intro s₁ h
    exact ((dequeueLoop_frame (.txc t) c _ 0 s₁ rfl).2.1 r' c' hne (Set.notMem_empty _)).trans h
  · intro s₁ h
    rw [q_waitForTimer, h]

end Call

/-! ### The report -/

section Report

variable [Fintype C] {p : Params} {k : Kernel} {r : RlId K D} {c : C} {s : TxState K D C}

/-- The value returned is what the queue has sent exactly if the call gives up before it looks at
the queue, or can empty it and its packets add up to less than 4 GiB. -/
theorem isoRlDequeue_reports_iff (htokens : (s.q r c).tokens < 2 ^ 64) :
    Reports p k r c s ↔ GivesUp k r c s ∨ Drains p k r c s ∧ (s.q r c).total < 2 ^ 32 := by
  -- the recursive call of a destination's dequeue leaves its queue alone
  obtain ⟨unlock, hunlock, hcall⟩ : ∃ unlock : TxState K D C → TxState K D C,
      (∀ s, (unlock s).q r c = s.q r c) ∧
      isoRlDequeue p k r c s = dequeueWith unlock p k r c s := by
    cases r with
    | txc t => exact ⟨id, fun _ => rfl, rfl⟩
    | dest t d => exact ⟨_, fun s => q_dequeueWith_txc_of_ne (by simp), rfl⟩
  unfold Reports
  rw [hcall]
  by_cases hgive : GivesUp k r c s
  · obtain ⟨hret, hq⟩ := dequeueWith_of_givesUp (p := p) unlock hgive
    refine iff_of_true ⟨[], ?_, ?_, hret⟩ (Or.inl hgive)
    · rw [hq]
      rfl
    · rw [hq]
      rfl
  · obtain ⟨s₁, hq₁, hrl, hreads, hret, hq⟩ :=
      dequeueWith_of_not_givesUp (p := p) hunlock hgive
    have hspend : spendable r c s < 2 ^ 64 := by
      unfold spendable
      split_ifs
      · exact Nat.mod_lt _ (by decide)
      · exact htokens
    obtain ⟨sent, left, hsends⟩ := dequeueLoop_sends (p := p) (k := k) (s.q r c).list 0 s₁
      (by rw [hq₁]) (by rw [hq₁]; exact hspend)
    have hdrained : left = [] ↔ Drains p k r c s := by
      rw [hsends.drained, hq₁, onwardSpace_congr hrl hreads]
      constructor
      · rintro ⟨htok, hburst, hspace⟩
        refine ⟨htok, ?_, hspace⟩
        by_cases hnil : (s.q r c).list = []
        · simp [Queue.total, hnil]
        · simpa [Queue.total] using hburst hnil
      · intro h
        exact ⟨h.tokens, fun _ => by simpa [Queue.total] using h.burst, h.space⟩
    have hlist := hsends.list
    have hxmit := hsends.bytesXmit
    have hcounted := hsends.counted
    rw [hq₁] at hxmit
    rw [hq, hret, hlist, hxmit, hcounted, ← hdrained, or_iff_right hgive, Nat.zero_add]
    constructor
    · rintro ⟨sent', hsplit, -, hsum⟩
      -- what was sent is what is not left
      obtain rfl : sent' = sent := List.append_cancel_right (hsplit.symm.trans hsends.pkts_eq)
      have hnil : left = [] := by
        cases left with
        | nil => rfl
        | cons pkt rest =>
          -- the packet at which the loop has stopped has a size between 14 and 65563
          have hsize : pkt.size ≤ 65563 := pkt.size_le
          have hpos : 14 ≤ pkt.size := Nat.le_add_right ..
          simp only [List.take_succ_cons, List.take_zero, List.map_cons,
            List.map_nil, List.sum_cons, List.sum_nil, Nat.add_zero] at hsum
          unfold u32 at hsum
          omega
      refine ⟨hnil, ?_⟩
      subst hnil
      have htotal : (s.q r c).total = (sent'.map Skb.size).sum := by
        rw [Queue.total, hsends.pkts_eq, List.append_nil]
      rw [htotal, ← hsum]
      exact Nat.mod_lt _ (by decide)
    · rintro ⟨hnil, hlt⟩
      subst hnil
      have htotal : (s.q r c).total = (sent.map Skb.size).sum := by
        rw [Queue.total, hsends.pkts_eq, List.append_nil]
      rw [htotal] at hlt
      exact ⟨sent, hsends.pkts_eq, rfl, u32_of_lt hlt⟩

/-- A class-level queue with two packets of 1500 bytes and `tokens` tokens. -/
def twoWaiting (tokens : ℕ) : TxState Unit Unit Unit :=
  (TxState.init {} fun _ => 0).modifyQ (.txc ()) () fun q =>
    { q with
      list := [.datagram 1 1486 1 2 6 0 0, .datagram 2 1486 1 2 6 0 0]
      bytesEnqueued := 3000
      firstPktSize := 1500
      tokens := tokens }

/-- With tokens for both, both are sent and reported. -/
theorem isoRlDequeue_reports_both :
    ((twoWaiting 3000).q (.txc ()) ()).tokens < 2 ^ 64 ∧
      Reports {} Kernel.still (.txc ()) () (twoWaiting 3000) := by
  refine ⟨by decide +kernel, (isoRlDequeue_reports_iff (by decide +kernel)).mpr (Or.inr ⟨?_, ?_⟩)⟩
  · exact ⟨by decide +kernel, by decide +kernel, trivial⟩
  · decide +kernel

/-- With tokens for one, one is sent, and 3000 bytes are reported. -/
theorem isoRlDequeue_not_reports : ¬ Reports {} Kernel.still (.txc ()) () (twoWaiting 1500) := by
  rintro ⟨sent, -, hxmit, hret⟩
  have hsent : ((isoRlDequeue {} Kernel.still (.txc ()) () (twoWaiting 1500)).2.q
      (.txc ()) ()).bytesXmit
      = 1500 := by
    decide +kernel
  have hreported : (isoRlDequeue {} Kernel.still (.txc ()) () (twoWaiting 1500)).1 = 3000 := by
    decide +kernel
  have hbefore : ((twoWaiting 1500).q (.txc ()) ()).bytesXmit = 0 := by
    decide +kernel
  omega

end Report

end EyeQ.Rl
