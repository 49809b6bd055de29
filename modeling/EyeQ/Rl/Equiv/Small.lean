import EyeQ.Rl.Equiv.Enqueue
import EyeQ.Rl.Run

/-!
# Operations as sequences of small steps

`Small p k s s'` is one indivisible change of the limiters: a refill, a packet accepted from
outside, a queue taking the pool, a look at the head of a queue, a packet leaving a queue, or a
change of nothing but timers and active lists.  Each constructor carries the guard under which the
code makes the change.  `Inner` is the same without the packets from outside: dequeueing and the
tasklet are sequences of these.

Every operation is a sequence of small steps (`step_path`), except that rates are also written from
outside (`RateWrite`).  `runFrom_invariant` is the resulting rule: what the small steps and the
rate writes preserve holds in every run.
-/

namespace EyeQ.Rl

open Machine

variable {K D C : Type} [DecidableEq K] [DecidableEq D] [DecidableEq C]

/-! ### What enqueueing leaves alone -/

/-- `s'` differs from `s` only in limiter `r`, there only in the pool and the queue of CPU `c`,
in the clock, and in what is added to the history. -/
structure Touches (r : RlId K D) (c : C) (s s' : TxState K D C) : Prop where
  rl : ∀ r', r' ≠ r → s'.rl r' = s.rl r'
  queue : ∀ c', c' ≠ c → s'.q r c' = s.q r c'
  cb : s'.cb = s.cb
  trace : s.trace ⊆ s'.trace

omit [DecidableEq K] [DecidableEq D] [DecidableEq C] in
theorem Touches.refl (r : RlId K D) (c : C) (s : TxState K D C) : Touches r c s s :=
  ⟨fun _ _ => rfl, fun _ _ => rfl, rfl, List.Subset.refl _⟩

omit [DecidableEq K] [DecidableEq D] [DecidableEq C] in
theorem Touches.trans {r : RlId K D} {c : C} {s₁ s₂ s₃ : TxState K D C} (h₁ : Touches r c s₁ s₂)
    (h₂ : Touches r c s₂ s₃) : Touches r c s₁ s₃ where
  rl r' hr := (h₂.rl r' hr).trans (h₁.rl r' hr)
  queue c' hc := (h₂.queue c' hc).trans (h₁.queue c' hc)
  cb := h₂.cb.trans h₁.cb
  trace := List.Subset.trans h₁.trace h₂.trace

omit [DecidableEq C] in
theorem Touches.q {r : RlId K D} {c : C} {s s' : TxState K D C} (h : Touches r c s s')
    {r' : RlId K D} {c' : C} (hne : (r', c') ≠ (r, c)) : s'.q r' c' = s.q r' c' := by
  by_cases hr : r' = r
  · subst hr
    exact h.queue c' fun hc => hne (by rw [hc])
  · rw [TxState.q, h.rl r' hr, TxState.q]

omit [DecidableEq C] in
theorem isoRlClock_touches (p : Params) (k : Kernel) (r : RlId K D) (c : C) (s : TxState K D C) :
    Touches r c s (isoRlClock p k r s) where
  rl r' hr := by
    unfold isoRlClock
    split_ifs
    · exact TxState.rl_modifyRl_of_ne _ _ hr
    · rfl
  queue c' _ := q_isoRlClock ..
  cb := cb_isoRlClock ..
  trace := by rw [trace_isoRlClock]; exact List.Subset.refl _

/-- What the tokens of a queue are spent on. -/
structure Meter where
  tokens : ℕ
  firstPktSize : ℕ
  bytesXmit : ℕ

def Queue.meter (q : Queue) : Meter := ⟨q.tokens, q.firstPktSize, q.bytesXmit⟩

/-- `s'` differs from `s` only in the packets of the queue of `r` on `c`, their bytes, and the
history. -/
structure Fills (r : RlId K D) (c : C) (s s' : TxState K D C) : Prop extends Touches r c s s' where
  pool : s'.pool r = s.pool r
  meter : (s'.q r c).meter = (s.q r c).meter
  reads : s'.reads = s.reads

omit [DecidableEq K] [DecidableEq D] [DecidableEq C] in
theorem Fills.log (r : RlId K D) (c : C) (s : TxState K D C) (e : Event K D C) :
    Fills r c s (s.log e) :=
  ⟨⟨fun _ _ => rfl, fun _ _ => rfl, rfl, List.subset_append_left _ _⟩, rfl, rfl, rfl⟩

omit [DecidableEq K] [DecidableEq D] [DecidableEq C] in
theorem Fills.trans {r : RlId K D} {c : C} {s₁ s₂ s₃ : TxState K D C} (h₁ : Fills r c s₁ s₂)
    (h₂ : Fills r c s₂ s₃) : Fills r c s₁ s₃ :=
  ⟨h₁.toTouches.trans h₂.toTouches, h₂.pool.trans h₁.pool, h₂.meter.trans h₁.meter,
    h₂.reads.trans h₁.reads⟩

theorem queueTail_fills (r : RlId K D) (c : C) (skb : Skb) (s : TxState K D C) :
    Fills r c s (queueTail r c skb s) where
  rl _ hr := by
    rw [queueTail, TxState.modifyQ]
    exact TxState.rl_modifyRl_of_ne _ _ hr
  queue _ hc := TxState.q_modifyQ_of_ne _ _ fun h => hc (Prod.mk.inj h).2
  cb := rfl
  trace := List.Subset.refl _
  pool := TxState.pool_modifyQ ..
  meter := by
    rw [queueTail, TxState.q_modifyQ_self]
    rfl
  reads := rfl

theorem appendWhole_fills (p : Params) (r : RlId K D) (c : C) (pkt : Skb) (s : TxState K D C) :
    Fills r c s (appendWhole p r c pkt s) := by
  unfold appendWhole
  cases r with
  | txc t =>
    dsimp only
    split_ifs
    · exact queueTail_fills ..
    · exact queueTail_fills ..
  | dest t d => exact queueTail_fills ..

theorem foldl_appendSegment_fills (p : Params) (r : RlId K D) (c : C) (segs : List Skb)
    (s : TxState K D C) : Fills r c s (segs.foldl (appendSegment p r c) s) := by
  induction segs generalizing s with
  | nil => exact ⟨Touches.refl r c s, rfl, rfl, rfl⟩
  | cons skb segs ih =>
    refine Fills.trans ?_ (ih _)
    unfold appendSegment
    split_ifs
    · exact queueTail_fills ..
    · exact Fills.log ..

/-- After the clock, enqueueing only fills its queue. -/
theorem isoRlEnqueue_fills (p : Params) (k : Kernel) (r : RlId K D) (pkt : Skb) (c : C)
    (s : TxState K D C) : Fills r c (isoRlClock p k r s) (isoRlEnqueue p k r pkt c s).2 := by
  unfold isoRlEnqueue
  dsimp only
  split_ifs
  · exact ⟨Touches.refl r c _, rfl, rfl, rfl⟩
  · exact ((Fills.log ..).trans (Fills.log ..)).trans (appendWhole_fills ..)
  · exact (Fills.log ..).trans (appendWhole_fills ..)
  · cases k.skbGsoSegment pkt with
    | none => exact Fills.log ..
    | some segs =>
      exact (((Fills.log ..).trans (Fills.log ..)).trans (Fills.log ..)).trans
        (foldl_appendSegment_fills ..)

/-- Enqueueing in one limiter leaves the other limiters and all control blocks alone. -/
theorem isoRlEnqueue_touches (p : Params) (k : Kernel) (r : RlId K D) (pkt : Skb) (c : C)
    (s : TxState K D C) : Touches r c s (isoRlEnqueue p k r pkt c s).2 :=
  (isoRlClock_touches p k r c s).trans (isoRlEnqueue_fills p k r pkt c s).toTouches

/-! ### Borrowing -/

/-- `s'` is `s` after the queue of `r` on `c` has taken the whole pool. -/
structure Borrowed (r : RlId K D) (c : C) (s s' : TxState K D C) : Prop where
  self : s'.q r c =
    { s.q r c with tokens := u64 ((s.q r c).tokens + (s.pool r).totalTokens) }
  other : ∀ r' c', (r', c') ≠ (r, c) → s'.q r' c' = s.q r' c'
  pool_self : s'.pool r = { s.pool r with totalTokens := 0 }
  pool_other : ∀ r', r' ≠ r → s'.pool r' = s.pool r'
  cb : s'.cb = s.cb
  reads : s'.reads = s.reads
  trace : s'.trace = s.trace

theorem borrowed_modify (r : RlId K D) (c : C) (s : TxState K D C) :
    Borrowed r c s ((s.tryLock.modifyRl r fun l =>
      { l with totalTokens := sub64 l.totalTokens (s.rl r).totalTokens }).modifyQ r c fun q =>
      { q with tokens := u64 (q.tokens + (s.rl r).totalTokens) }) where
  self := by
    rw [TxState.q_modifyQ_self, TxState.q_modifyRl_self]
    rfl
  other r' c' hne := by
    rw [TxState.q_modifyQ_of_ne _ _ hne]
    by_cases hr : r' = r
    · subst hr
      rw [TxState.q_modifyRl_self]
      rfl
    · rw [TxState.q_modifyRl_of_ne _ _ _ hr, TxState.q_tryLock]
  pool_self := by
    rw [TxState.pool_modifyQ, TxState.pool_modifyRl_self]
    have hzero : sub64 (s.rl r).totalTokens (s.rl r).totalTokens = 0 := by
      simp [sub64, u64OfInt]
    simp only [TxState.pool, show s.tryLock.rl = s.rl from rfl, hzero]
  pool_other r' hr := by
    rw [TxState.pool_modifyQ, TxState.pool_modifyRl_of_ne _ _ hr, TxState.pool_tryLock]
  cb := rfl
  reads := rfl
  trace := rfl

/-- `iso_rl_borrow_tokens` fails when the lock is contended, and takes the pool otherwise. -/
theorem isoRlBorrowTokens_cases (p : Params) (k : Kernel) (r : RlId K D) (c : C)
    (s : TxState K D C) :
    isoRlBorrowTokens p k r c s = (true, s.tryLock) ∨
      (isoRlBorrowTokens p k r c s).1 = false ∧
        Borrowed r c s (isoRlBorrowTokens p k r c s).2 := by
  -- `borrow` is the whole pool, so the pool is never too small
  unfold isoRlBorrowTokens
  simp only [ge_iff_le, le_refl, ↓reduceIte, ite_self]
  split_ifs
  · exact Or.inr ⟨rfl, borrowed_modify r c s⟩
  · exact Or.inl rfl

/-! ### Sending one packet -/

/-- A packet that is sent leaves the head of its queue. -/
theorem list_forward {p : Params} {k : Kernel} {r : RlId K D} {c : C} {pkt : Skb}
    {rest : List Skb} {s s' : TxState K D C} (hlist : (s.q r c).list = pkt :: rest)
    (h : forward p k r c pkt s = some s') : (s'.q r c).list = rest := by
  unfold forward at h
  cases r with
  | txc t =>
    obtain rfl := Option.some.inj h
    simp [hlist]
  | dest t d =>
    dsimp only at h
    split_ifs at h with hroom
    obtain rfl := Option.some.inj h
    have htouch := isoRlEnqueue_touches p k (.txc t) pkt c (skbDequeue (.dest t d) c s)
    have hne : (RlId.dest t d, c) ≠ (RlId.txc t, c) := by simp
    have hq := htouch.q hne
    simp [hq, hlist]

/-! ### Small steps -/

/-- One indivisible change by which no packet comes in from outside. -/
inductive Inner (p : Params) (k : Kernel) : TxState K D C → TxState K D C → Prop
  | clock (s : TxState K D C) (r : RlId K D) : Inner p k s (isoRlClock p k r s)
  | borrow (s : TxState K D C) (r : RlId K D) (c : C)
      (hlow : (s.q r c).tokens < (s.q r c).firstPktSize) :
      Inner p k s (isoRlBorrowTokens p k r c s).2
  | peek (s : TxState K D C) (r : RlId K D) (c : C) (pkt : Skb) (rest : List Skb)
      (hlist : (s.q r c).list = pkt :: rest) : Inner p k s (peek r c pkt s)
  | forward (s s' : TxState K D C) (r : RlId K D) (c : C) (pkt : Skb) (rest : List Skb)
      (hlist : (s.q r c).list = pkt :: rest) (htokens : pkt.size ≤ (s.q r c).tokens)
      (hforward : forward p k r c pkt s = some s') : Inner p k s s'
  | schedule (s s' : TxState K D C) (hrl : s'.rl = s.rl)
      (hbytes : ∀ c, (s'.cb c).txBytes = (s.cb c).txBytes) (htrace : s'.trace = s.trace)
      (hreads : s.reads ≤ s'.reads) : Inner p k s s'

/-- One indivisible change. -/
inductive Small (p : Params) (k : Kernel) : TxState K D C → TxState K D C → Prop
  | inner {s s' : TxState K D C} (h : Inner p k s s') : Small p k s s'
  | enqueue (s : TxState K D C) (t : K) (d : D) (c : C) (pkt : Skb) :
      Small p k s (isoRlEnqueue p k (.dest t d) pkt c s).2

theorem small_path {p : Params} {k : Kernel} {s s' : TxState K D C}
    (hpath : IsPath (Inner p k) s s') : IsPath (Small p k) s s' :=
  Relation.ReflTransGen.mono (fun _ _ => Small.inner) _ _ hpath

/-- A rate written from outside. -/
def RateWrite (s s' : TxState K D C) : Prop :=
  ∃ (r : RlId K D) (rate time : ℕ), s'.rl = (s.modifyRl r fun l =>
      { l with rate := rate, lastRateUpdateTime := time }).rl ∧
    s'.cb = s.cb ∧ s'.trace = s.trace ∧ s.reads ≤ s'.reads

section Paths

variable {p : Params} {k : Kernel}

theorem modifyCb_inner (s : TxState K D C) (c : C) (f : Cb K D C → Cb K D C)
    (hf : ∀ cb, (f cb).txBytes = cb.txBytes) : Inner p k s (s.modifyCb c f) := by
  refine Inner.schedule _ _ rfl (fun c' => ?_) rfl le_rfl
  by_cases hc : c' = c
  · subst hc
    rw [TxState.cb_modifyCb_self, hf]
  · rw [TxState.cb_modifyCb_of_ne _ _ hc]

/-- The loop of `iso_rl_dequeue`, over the packets in the queue. -/
theorem dequeueLoop_path (r : RlId K D) (c : C) : ∀ (pkts : List Skb) (sum : ℕ)
    (s : TxState K D C), (s.q r c).list = pkts →
      IsPath (Inner p k) s (dequeueLoop p k r c pkts sum s).2 := by
  intro pkts
  induction pkts with
  | nil => intro sum s _; exact .refl
  | cons pkt rest ih =>
    intro sum s hlist
    have hpeek : Inner p k s (peek r c pkt s) := Inner.peek s r c pkt rest hlist
    have hlist' : ((peek r c pkt s).q r c).list = pkt :: rest := by simp [hlist]
    rw [dequeueLoop]
    split_ifs with hguard
    · cases hfwd : forward p k r c pkt (peek r c pkt s) with
      | none => exact .single hpeek
      | some s' =>
        have hsend : Inner p k (peek r c pkt s) s' :=
          Inner.forward _ _ r c pkt rest hlist' hguard.1 hfwd
        exact (Relation.ReflTransGen.single hpeek).tail hsend |>.trans
          (ih _ s' (list_forward hlist' hfwd))
    · exact .single hpeek

variable [Fintype C]

theorem waitForTimer_path (r : RlId K D) (c : C) (s : TxState K D C) :
    IsPath (Inner p k) s (waitForTimer r c s) := by
  have hlink : IsPath (Inner p k) s (linkActive r c s) := by
    unfold linkActive
    split_ifs
    · exact .refl
    · exact .single (modifyCb_inner s c _ fun _ => rfl)
  refine hlink.trans ?_
  unfold waitForTimer startTimer
  split_ifs
  · exact .refl
  · exact .single (modifyCb_inner _ c _ fun _ => rfl)

/-- What `dequeueWith` does after the attempt to borrow. -/
def afterBorrow (unlock : TxState K D C → TxState K D C) (p : Params) (k : Kernel)
    (r : RlId K D) (c : C) (timeout : Bool) (s : TxState K D C) : ℕ × TxState K D C :=
  if timeout then (0, if p.isoExiting then s else waitForTimer r c s)
  else
    let ((timeout, sum), s) := dequeueLoop p k r c (s.q r c).list 0 s
    let s := unlock s
    (u32 sum, if timeout ∧ ¬ p.isoExiting then waitForTimer r c s else s)

theorem dequeueWith_of_lt (unlock : TxState K D C → TxState K D C) {r : RlId K D} {c : C}
    {s : TxState K D C} (hlow : (s.q r c).tokens < (s.q r c).firstPktSize) :
    dequeueWith unlock p k r c s =
      afterBorrow unlock p k r c (isoRlBorrowTokens p k r c s).1
        (isoRlBorrowTokens p k r c s).2 := by
  rw [dequeueWith, if_pos hlow]
  rfl

theorem dequeueWith_of_not_lt (unlock : TxState K D C → TxState K D C) {r : RlId K D} {c : C}
    {s : TxState K D C} (hlow : ¬ (s.q r c).tokens < (s.q r c).firstPktSize) :
    dequeueWith unlock p k r c s = afterBorrow unlock p k r c false s := by
  rw [dequeueWith, if_neg hlow]
  rfl

/-- What each part of `iso_rl_dequeue` keeps, all of it keeps. -/
theorem dequeueWith_keeps {unlock : TxState K D C → TxState K D C} {P : TxState K D C → Prop}
    {r : RlId K D} {c : C}
    (hborrow : ∀ s, P s → (s.q r c).tokens < (s.q r c).firstPktSize →
      P (isoRlBorrowTokens p k r c s).2)
    (hloop : ∀ s, P s → P (dequeueLoop p k r c (s.q r c).list 0 s).2)
    (hunlock : ∀ s, P s → P (unlock s)) (hwait : ∀ s, P s → P (waitForTimer r c s))
    {s : TxState K D C} (h : P s) : P (dequeueWith unlock p k r c s).2 := by
  have hrest : ∀ (timeout : Bool) (s : TxState K D C), P s →
      P (afterBorrow unlock p k r c timeout s).2 := by
    intro timeout s h
    rw [afterBorrow]
    split_ifs
    · exact h
    · exact hwait s h
    · have hafter := hunlock _ (hloop s h)
      dsimp only
      split_ifs
      · exact hwait _ hafter
      · exact hafter
  by_cases hlow : (s.q r c).tokens < (s.q r c).firstPktSize
  · rw [dequeueWith_of_lt unlock hlow]
    exact hrest _ _ (hborrow s h hlow)
  · rw [dequeueWith_of_not_lt unlock hlow]
    exact hrest _ _ h

theorem dequeueWith_path {unlock : TxState K D C → TxState K D C}
    (hunlock : ∀ s, IsPath (Inner p k) s (unlock s)) (r : RlId K D) (c : C)
    (s : TxState K D C) : IsPath (Inner p k) s (dequeueWith unlock p k r c s).2 :=
  dequeueWith_keeps (P := IsPath (Inner p k) s)
    (fun s' h hlow => h.tail (Inner.borrow s' r c hlow))
    (fun s' h => h.trans (dequeueLoop_path r c _ 0 s' rfl))
    (fun s' h => h.trans (hunlock s')) (fun s' h => h.trans (waitForTimer_path r c s')) .refl

theorem isoRlDequeue_path (r : RlId K D) (c : C) (s : TxState K D C) :
    IsPath (Inner p k) s (isoRlDequeue p k r c s).2 := by
  have hroot : ∀ (t : K) (s : TxState K D C),
      IsPath (Inner p k) s (dequeueWith id p k (.txc t) c s).2 :=
    fun t s => dequeueWith_path (fun _ => .refl) (.txc t) c s
  cases r with
  | txc t => exact hroot t s
  | dest t d =>
    -- the recursion of `iso_rl_dequeue` is one level deep
    exact dequeueWith_path (hroot t) (.dest t d) c s

theorem taskletLoop_path (c : C) (first : Option (RlId K D × C)) : ∀ (fuel : ℕ)
    (pos tmp : Option (RlId K D × C)) (count sent : ℕ) (s : TxState K D C),
      IsPath (Inner p k) s (taskletLoop p k c first fuel pos tmp count sent s) := by
  intro fuel
  induction fuel with
  | zero => intro pos tmp count sent s; exact .refl
  | succ fuel ih =>
    intro pos tmp count sent s
    cases pos with
    | none => exact .refl
    | some x =>
      rw [taskletLoop]
      split_ifs
      · exact .refl
      · have hdel : Inner p k s (listDelInit c x s) := modifyCb_inner s c _ fun _ => rfl
        have hclock := Inner.clock (p := p) (k := k) (listDelInit c x s) x.1
        exact .head hdel (.head hclock ((isoRlDequeue_path x.1 x.2 _).trans (ih _ _ _ _ _)))

theorem isoRlXmitTasklet_path (c : C) (s : TxState K D C) :
    IsPath (Inner p k) s (isoRlXmitTasklet p k c s) := by
  have hrun : Inner p k s (s.modifyCb c fun cb => { cb with xmitTimeout := false }) :=
    modifyCb_inner s c _ fun _ => rfl
  have hread : ∀ s : TxState K D C, Inner p k s s.read :=
    fun s => Inner.schedule s s.read rfl (fun _ => rfl) rfl (Nat.le_succ _)
  have hwalk : ∀ s : TxState K D C, IsPath (Inner p k) s (taskletWalk p k c s) :=
    fun s => taskletLoop_path c _ _ _ _ _ _ s
  unfold isoRlXmitTasklet
  dsimp only
  split_ifs
  · exact .single hrun
  · exact .head hrun (.head (hread _) (hwalk _))
  · exact .head hrun (.head (hread _) ((hwalk _).tail (modifyCb_inner _ c _ fun _ => rfl)))

/-- The operations by which no packet comes in from outside. -/
def Op.Internal : Op K D C → Prop
  | .tx _ _ _ _ => False
  | .enqueue _ _ _ _ => False
  | _ => True

/-- An operation by which no packet comes in is a sequence of small steps without one, or one rate
write. -/
theorem step_inner_path (s : TxState K D C) {op : Op K D C} (hop : op.Internal) :
    IsPath (Inner p k) s (step p k s op) ∨ RateWrite s (step p k s op) := by
  cases op with
  | tx t d c skb => exact hop.elim
  | enqueue t d c skb => exact hop.elim
  | dequeue r c => exact Or.inl (isoRlDequeue_path r c s)
  | borrow r c =>
    unfold step
    dsimp only
    split_ifs with hlow
    · exact Or.inl (.single (Inner.borrow s r c hlow))
    · exact Or.inl .refl
  | clock r => exact Or.inl (.single (Inner.clock s r))
  | feedback t d rate => exact Or.inr ⟨.dest t d, u32 rate, _, rfl, rfl, rfl, Nat.le_succ _⟩
  | classRate t rate =>
    -- the time of the last update stays, so it is written back
    refine Or.inr ⟨.txc t, u32 rate, (s.rl (.txc t)).lastRateUpdateTime, ?_, rfl, rfl, le_rfl⟩
    show (s.modifyRl _ _).rl = _
    simp [TxState.modifyRl]
  | timeout c =>
    unfold step isoRlTimeout
    dsimp only
    split_ifs
    · exact Or.inl (.single (modifyCb_inner s c _ fun _ => rfl))
    · exact Or.inl .refl
  | tasklet c => exact Or.inl (isoRlXmitTasklet_path c s)

/-- Every operation is a sequence of small steps or one rate write. -/
theorem step_path (s : TxState K D C) (op : Op K D C) :
    IsPath (Small p k) s (step p k s op) ∨ RateWrite s (step p k s op) := by
  have hinner : op.Internal → IsPath (Small p k) s (step p k s op) ∨ RateWrite s (step p k s op) :=
    fun hop => (step_inner_path s hop).imp_left small_path
  cases op with
  | tx t d c skb =>
    have hdequeue := isoRlDequeue_path (p := p) (k := k) (.dest t d) c
      (isoRlEnqueue p k (.dest t d) skb.isoEnableEcn c s).2
    exact Or.inl (.head (Small.enqueue s t d c skb.isoEnableEcn) (small_path hdequeue))
  | enqueue t d c skb => exact Or.inl (.single (Small.enqueue s t d c skb))
  | _ => exact hinner trivial

/-- What the small steps and the rate writes preserve holds after every run. -/
theorem runFrom_invariant {P : TxState K D C → Prop} {t : RlId K D → ℕ}
    (hinit : P (TxState.init p t)) (hsmall : ∀ s s', Small p k s s' → P s → P s')
    (hrate : ∀ s s', RateWrite s s' → P s → P s') (ops : List (Op K D C)) :
    P (runFrom p k t ops) := by
  have hstep : ∀ s (op : Op K D C), True → P s → P (step p k s op) := by
    intro s op _ hs
    rcases step_path (p := p) (k := k) s op with hpath | hwrite
    · exact path_invariant hsmall hpath hs
    · exact hrate _ _ hwrite hs
  exact run_invariant (step p k) hstep hinit fun _ _ => trivial

end Paths

end EyeQ.Rl
