import EyeQ.Machine.Progress
import EyeQ.Rl.Equiv.Potential
import EyeQ.Rl.Equiv.Round

/-!
# Everything is sent in the end

Packets come in, and then no more do; the timers go on to expire and the tasklets to run.  Then all
queues are empty after some time (`runFrom_drains`): no packet is stuck for want of tokens, behind a
full class-level queue, behind other queues on an active list, or because other CPUs take the
tokens.

A round of a CPU is an expiry of its timer, if it is armed, and a run of its tasklet, if it is
scheduled.  The rounds of the CPUs come in any order in which no CPU is left out for ever, and when
a round starts, the limiters of the queues that it is for are due for a refill.

The argument is about the first queue on a list that is not blocked (`Productive`).  When it is
served the potential falls: the queue gets a token that it lacks, its head is looked at, or a packet
is sent (`serve_potential_lt`).  A queue that is blocked waits for the class-level queue of the same
CPU, and that one is on the list as well.  While others are served and the potential does not fall,
the queue moves up on the list (`taskletWalk_waits`), and what the other CPUs do leaves its place
alone (`round_waits_of_ne`).
-/

namespace EyeQ

/-- A configuration in which a packet of any length fits a burst and an empty queue, and eight
microseconds pass between two refills. -/
structure Params.Roomy (p : Params) : Prop where
  interval : 7 ≤ p.isoRlUpdateIntervalUs
  burst_lt : p.isoMinBurstBytes < 2 ^ 32
  burst : maxLen + ethHlen ≤ p.isoMinBurstBytes * 2
  queue : maxLen + ethHlen < p.isoMaxQueueLenBytes

theorem Params.roomy_default : ({} : Params).Roomy := by
  constructor
  all_goals decide

namespace Rl

open Machine

variable {K D C : Type} [DecidableEq K] [DecidableEq D] [DecidableEq C]

/-! ### Refills -/

/-- The limiter is due for a refill, and up to the reading `n` of the clock the bits it gets fit a
`u64`. -/
structure Due (p : Params) (k : Kernel) (n : ℕ) (r : RlId K D) (s : TxState K D C) : Prop where
  late : (s.pool r).lastUpdateTime + 1000 * (p.isoRlUpdateIntervalUs + 1) ≤ k.ktime s.reads
  fits : (s.pool r).rate * ((k.ktime n - (s.pool r).lastUpdateTime) / 1000) < 2 ^ 64

omit [DecidableEq K] [DecidableEq D] [DecidableEq C] in
theorem Due.of_pool {p : Params} {k : Kernel} {n : ℕ} {r : RlId K D} {s s' : TxState K D C}
    (h : Due p k n r s) (hlast : (s'.pool r).lastUpdateTime = (s.pool r).lastUpdateTime)
    (hrate : (s'.pool r).rate = (s.pool r).rate) (hreads : s.reads ≤ s'.reads) :
    Due p k n r s' := by
  refine ⟨?_, ?_⟩
  · rw [hlast]
    exact h.late.trans (k.ktime_mono hreads)
  · rw [hlast, hrate]
    exact h.fits

/-- The rates are at least 2 Mbit/s, as low as a limiter goes by itself. -/
def Paced (s : TxState K D C) : Prop := ∀ r, 2 ≤ (s.pool r).rate

theorem path_paced {p : Params} {k : Kernel} {s s' : TxState K D C} (h : IsPath (Inner p k) s s')
    (hs : Paced s) : Paced s' :=
  path_invariant (P := Paced) (fun _ _ h hs r => (h.turn r).rate.2 (hs r)) h hs

omit [DecidableEq C] in
/-- A limiter that is due gets a token. -/
theorem refill_pos {p : Params} {l : Rl C} {now : ℕ} (hp : p.Roomy) (hrate : 2 ≤ l.rate)
    (hfits : l.rate * ((now - l.lastUpdateTime) / 1000) < 2 ^ 64) (htotal : l.totalTokens < 2 ^ 32)
    (hlate : l.lastUpdateTime + 1000 * (p.isoRlUpdateIntervalUs + 1) ≤ now) :
    0 < (refill p now l).totalTokens := by
  have hinterval := hp.interval
  obtain ⟨hle, hge⟩ := @refill_rate C p now l
  have hrate' : (refill p now l).rate ≤ l.rate := by omega
  -- the microseconds since the last refill
  have hus_le := u64OfInt_ktimeUsDelta_le (show l.lastUpdateTime ≤ now by omega)
  have hus_ge : 8 ≤ u64OfInt (ktimeUsDelta now l.lastUpdateTime) := by
    have hdelta : (now - l.lastUpdateTime) / 1000 < 2 ^ 63 := by
      have hmul := Nat.mul_le_mul_right ((now - l.lastUpdateTime) / 1000) hrate
      omega
    unfold ktimeUsDelta u64OfInt
    omega
  have hbits_lt : (refill p now l).rate * u64OfInt (ktimeUsDelta now l.lastUpdateTime) < 2 ^ 64 :=
    lt_of_le_of_lt (Nat.mul_le_mul hrate' hus_le) hfits
  have hbits_ge : 2 * 8 ≤ (refill p now l).rate * u64OfInt (ktimeUsDelta now l.lastUpdateTime) :=
    Nat.mul_le_mul (hge hrate) hus_ge
  have hcap : 0 < u32 p.isoMinBurstBytes := by
    have hburst := hp.burst
    rw [u32_of_lt hp.burst_lt]
    unfold maxLen at hburst
    omega
  show 0 < min (max _ (u32 p.isoMinBurstBytes)) (u64 (l.totalTokens + u64 ((refill p now l).rate *
    u64OfInt (ktimeUsDelta now l.lastUpdateTime)) >>> 3))
  rw [u64_of_lt hbits_lt, Nat.shiftRight_eq_div_pow, u64_of_lt (by omega)]
  exact lt_min (lt_max_of_lt_right hcap) (by omega)

omit [DecidableEq C] in
theorem totalTokens_isoRlClock_pos {p : Params} {k : Kernel} {n : ℕ} {r : RlId K D}
    {s : TxState K D C} (hp : p.Roomy) (hpaced : Paced s) (hs : Solvent p s) (hdue : Due p k n r s)
    (hn : (isoRlClock p k r s).reads ≤ n) : 0 < ((isoRlClock p k r s).pool r).totalTokens := by
  have hlate := hdue.late
  have hlater : k.ktime s.reads ≤ k.ktime (s.reads + 1) := k.ktime_mono (Nat.le_succ _)
  have hclock : isoRlClock p k r s
      = (s.read.modifyRl r (Rl.refill p (k.ktime s.read.reads))).read := by
    refine if_pos ?_
    have hlast : (s.pool r).lastUpdateTime = (s.rl r).lastUpdateTime := rfl
    unfold ktimeUsDelta
    omega
  rw [hclock] at hn
  have hread : k.ktime (s.reads + 1) ≤ k.ktime n := k.ktime_mono ((Nat.le_succ _).trans hn)
  rw [hclock, TxState.pool_read, TxState.pool_modifyRl_self]
  show 0 < (refill p (k.ktime (s.reads + 1)) (s.rl r)).totalTokens
  refine refill_pos hp (hpaced r) (lt_of_le_of_lt ?_ hdue.fits) (hs.frugal r).total
    (hlate.trans hlater)
  exact Nat.mul_le_mul_left _ (Nat.div_le_div_right (Nat.sub_le_sub_right hread _))

/-! ### What a dequeue does to the potential -/

section Dequeue

variable {p : Params} {k : Kernel} {s s' : TxState K D C} {r : RlId K D} {c : C}

/-- The queue has a packet at its head, and can get on: it has not been looked at, it lacks tokens,
or it can be sent. -/
def Productive (p : Params) (s : TxState K D C) (x : RlId K D × C) : Prop :=
  ∃ pkt rest, (s.q x.1 x.2).list = pkt :: rest ∧
    match x.1 with
    | .txc _ => True
    | .dest t _ => (s.q x.1 x.2).firstPktSize ≠ pkt.size ∨ (s.q x.1 x.2).tokens < pkt.size ∨
        isoRlHasSpaceFor p (.txc t) pkt x.2 s = true

/-- After the look at the head, the loop is a sequence of small steps. -/
theorem dequeueLoop_path_peek {pkt : Skb} {rest : List Skb} (hlist : (s.q r c).list = pkt :: rest)
    (sum : ℕ) : IsPath (Inner p k) (peek r c pkt s)
    (dequeueLoop p k r c (pkt :: rest) sum s).2 := by
  have hlist' : ((peek r c pkt s).q r c).list = pkt :: rest := by simp [hlist]
  rw [dequeueLoop]
  split_ifs with hguard
  · cases hfwd : forward p k r c pkt (peek r c pkt s) with
    | none => exact .refl
    | some s' =>
      exact .head (Inner.forward _ _ r c pkt rest hlist' hguard.1 hfwd)
        (dequeueLoop_path r c rest _ s' (list_forward hlist' hfwd))
  · exact .refl

/-- The loop gets on if the head has not been looked at. -/
theorem dequeueLoop_lt_of_unseen {pkt : Skb} {rest : List Skb} (hs : Tidy p s)
    (hlist : (s.q r c).list = pkt :: rest) (hunseen : (s.q r c).firstPktSize ≠ pkt.size) (sum : ℕ) :
    potential k (dequeueLoop p k r c (s.q r c).list sum s).2 < potential k s := by
  have hpeek := potential_peek (k := k) hlist hs.finite
  have hone : (s.q r c).unseen = 1 := by
    unfold Queue.unseen
    rw [hlist]
    exact if_neg hunseen
  have htidy : Tidy p (peek r c pkt s) := (Inner.peek (k := k) s r c pkt rest hlist).tidy hs
  rw [hlist]
  have hrest := path_potential_le (dequeueLoop_path_peek (p := p) (k := k) hlist sum) htidy
  omega

/-- It gets on if the head can be sent. -/
theorem dequeueLoop_lt_of_forward {pkt : Skb} {rest : List Skb} (hs : Tidy p s)
    (hlist : (s.q r c).list = pkt :: rest) (htokens : pkt.size ≤ (s.q r c).tokens)
    (hburst : pkt.size ≤ p.isoMinBurstBytes * 2)
    (hforward : ∃ s', forward p k r c pkt (peek r c pkt s) = some s') :
    potential k (dequeueLoop p k r c (s.q r c).list 0 s).2 < potential k s := by
  obtain ⟨s', hfwd⟩ := hforward
  have hlist' : ((peek r c pkt s).q r c).list = pkt :: rest := by simp [hlist]
  have htokens' : pkt.size ≤ ((peek r c pkt s).q r c).tokens := by simpa using htokens
  have hpeek := potential_peek (k := k) hlist hs.finite
  have htidy : Tidy p (peek r c pkt s) := (Inner.peek (k := k) s r c pkt rest hlist).tidy hs
  have hsent := forward_potential_lt htidy hlist' htokens' hfwd
  have htidy' : Tidy p s' := (Inner.forward _ _ r c pkt rest hlist' htokens' hfwd).tidy htidy
  have hrest := path_potential_le (dequeueLoop_path (p := p) (k := k) r c rest (0 + pkt.size) s'
    (list_forward hlist' hfwd)) htidy'
  rw [hlist, dequeueLoop, if_pos ⟨htokens', by omega⟩, hfwd]
  dsimp only
  omega

theorem forward_of_space {pkt : Skb}
    (h : match r with
      | .txc _ => True
      | .dest t _ => isoRlHasSpaceFor p (.txc t) pkt c s = true) :
    ∃ s', forward p k r c pkt (peek r c pkt s) = some s' := by
  cases r with
  | txc t => exact ⟨_, rfl⟩
  | dest t d =>
    have hspace : isoRlHasSpaceFor p (.txc t) pkt c (peek (.dest t d) c pkt s) = true := by
      rw [isoRlHasSpaceFor, q_peek_of_ne pkt s (by simp)]
      exact h
    exact ⟨_, if_pos hspace⟩

variable [Fintype C]

/-- Once it has its tokens, a dequeue does at least what its loop does. -/
theorem afterBorrow_le {unlock : TxState K D C → TxState K D C}
    (hunlock : ∀ s, IsPath (Inner p k) s (unlock s)) (hs : Tidy p s) :
    potential k (afterBorrow unlock p k r c false s).2 ≤
      potential k (dequeueLoop p k r c (s.q r c).list 0 s).2 := by
  have htidy := path_tidy (dequeueLoop_path (p := p) (k := k) r c _ 0 s rfl) hs
  rw [afterBorrow, if_neg Bool.false_ne_true]
  dsimp only
  split_ifs
  · exact path_potential_le ((hunlock _).trans (waitForTimer_path ..)) htidy
  · exact path_potential_le (hunlock _) htidy

/-- A queue that is not blocked gets on when it is dequeued, if there is a token in the pool. -/
theorem dequeueWith_potential_lt {unlock : TxState K D C → TxState K D C}
    (hunlock : ∀ s, IsPath (Inner p k) s (unlock s)) (hp : p.Roomy)
    (hlock : ∀ n, k.trylock n = true) (hs : Tidy p s) (htotal : 0 < (s.pool r).totalTokens)
    (hprod : Productive p s (r, c)) :
    potential k (dequeueWith unlock p k r c s).2 < potential k s := by
  obtain ⟨pkt, rest, hlist, hgo⟩ := hprod
  dsimp only at hlist hgo
  have hsize : pkt.size ≤ (((s.q r c).list).map Skb.size).sum := by
    rw [hlist, List.map_cons, List.sum_cons]
    exact Nat.le_add_right ..
  have hburst : pkt.size ≤ p.isoMinBurstBytes * 2 := pkt.size_le.trans hp.burst
  by_cases hlow : (s.q r c).tokens < (s.q r c).firstPktSize
  · -- it borrows the pool
    rw [dequeueWith_of_lt unlock hlow]
    have hborrow : (isoRlBorrowTokens p k r c s).1 = false ∧
        Borrowed r c s (isoRlBorrowTokens p k r c s).2 := by
      rcases isoRlBorrowTokens_cases p k r c s with hfail | hb
      · have hfalse : (isoRlBorrowTokens p k r c s).1 = false := by
          rw [isoRlBorrowTokens, if_pos (hlock _)]
          simp
        rw [hfail] at hfalse
        exact absurd hfalse (by simp)
      · exact hb
    obtain ⟨hfalse, hb⟩ := hborrow
    have htidy : Tidy p (isoRlBorrowTokens p k r c s).2 :=
      (Inner.borrow (k := k) s r c hlow).tidy hs
    rw [hfalse]
    refine lt_of_le_of_lt (afterBorrow_le hunlock htidy) ?_
    by_cases hlack : (s.q r c).tokens < (((s.q r c).list).map Skb.size).sum
    · -- at least one token of the pool is lacking
      have hgain : potential k (isoRlBorrowTokens p k r c s).2 + 1 ≤ potential k s := by
        refine hb.potential_add_le hs.finite ?_
        rw [hb.tokens hs.toSolvent]
        exact Queue.work_tokens_lt (by omega) hlack
      have hloop := path_potential_le (dequeueLoop_path (p := p) (k := k) r c _ 0
        (isoRlBorrowTokens p k r c s).2 rfl) htidy
      omega
    · -- `first_pkt_size` is that of another packet
      have hle := (Inner.borrow (k := k) s r c hlow).potential_le hs
      have hlist' : ((isoRlBorrowTokens p k r c s).2.q r c).list = pkt :: rest := by
        rw [hb.self]
        exact hlist
      refine lt_of_lt_of_le (dequeueLoop_lt_of_unseen htidy hlist' ?_ 0) hle
      rw [hb.self]
      dsimp only
      omega
  · rw [dequeueWith_of_not_lt unlock hlow]
    refine lt_of_le_of_lt (afterBorrow_le hunlock hs) ?_
    by_cases hseen : (s.q r c).firstPktSize = pkt.size
    · refine dequeueLoop_lt_of_forward hs hlist (by omega) hburst (forward_of_space ?_)
      cases r with
      | txc t => trivial
      | dest t d =>
        rcases hgo with hne | hfew | hspace
        · exact absurd hseen hne
        · omega
        · exact hspace
    · exact dequeueLoop_lt_of_unseen hs hlist hseen 0

/-! ### What a dequeue leaves alone -/

/-- No packet has moved, and no limiter has been refilled. -/
structure Rests (s s' : TxState K D C) : Prop where
  load : ∀ r c, (s'.q r c).load = (s.q r c).load
  pool : ∀ r, (s'.pool r).lastUpdateTime = (s.pool r).lastUpdateTime ∧
    (s'.pool r).rate = (s.pool r).rate

/-- The potential has not grown, and it has fallen unless all is at rest. -/
structure Calm (p : Params) (k : Kernel) (s s' : TxState K D C) : Prop where
  tidy : Tidy p s'
  le : potential k s' ≤ potential k s
  rests : potential k s' < potential k s ∨ Rests s s'

section

omit [DecidableEq K] [DecidableEq D] [DecidableEq C] [Fintype C]

theorem Rests.of_rl (h : s'.rl = s.rl) : Rests s s' :=
  ⟨fun r c => by rw [TxState.q, h, TxState.q], fun r => by rw [TxState.pool, h]; exact ⟨rfl, rfl⟩⟩

theorem Calm.refl (hs : Tidy p s) : Calm p k s s := ⟨hs, le_rfl, Or.inr (.of_rl rfl)⟩

theorem Calm.trans {s'' : TxState K D C} (h : Calm p k s s') (h' : Calm p k s' s'') :
    Calm p k s s'' := by
  refine ⟨h'.tidy, h'.le.trans h.le, ?_⟩
  rcases h.rests with hlt | hr
  · exact Or.inl (h'.le.trans_lt hlt)
  · rcases h'.rests with hlt' | hr'
    · exact Or.inl (hlt'.trans_le h.le)
    · refine Or.inr ⟨fun r c => (hr'.load r c).trans (hr.load r c), fun r => ?_⟩
      exact ⟨(hr'.pool r).1.trans (hr.pool r).1, (hr'.pool r).2.trans (hr.pool r).2⟩

end

section

omit [Fintype C]

theorem Calm.of_path (hpath : IsPath (Inner p k) s s') (hs : Tidy p s)
    (hr : potential k s' < potential k s ∨ Rests s s') : Calm p k s s' :=
  ⟨path_tidy hpath hs, path_potential_le hpath hs, hr⟩

theorem isoRlBorrowTokens_calm (hs : Tidy p s) (hlow : (s.q r c).tokens < (s.q r c).firstPktSize) :
    Calm p k s (isoRlBorrowTokens p k r c s).2 := by
  have hinner := Inner.borrow (k := k) (p := p) s r c hlow
  refine .of_path (.single hinner) hs (Or.inr ?_)
  rcases isoRlBorrowTokens_cases p k r c s with hfail | ⟨-, hb⟩
  · rw [hfail]
    exact .of_rl rfl
  · refine ⟨fun r' c' => ?_, fun r' => ?_⟩
    · by_cases hx : (r', c') = (r, c)
      · obtain ⟨rfl, rfl⟩ := Prod.mk.inj hx
        rw [hb.self]
        rfl
      · rw [hb.other r' c' hx]
    · by_cases hr : r' = r
      · subst hr
        rw [hb.pool_self]
        exact ⟨rfl, rfl⟩
      · rw [hb.pool_other r' hr]
        exact ⟨rfl, rfl⟩

theorem peek_rests (r : RlId K D) (c : C) (pkt : Skb) (s : TxState K D C) :
    Rests s (peek r c pkt s) := by
  refine ⟨fun r' c' => ?_, fun r' => ?_⟩
  · by_cases hx : (r', c') = (r, c)
    · obtain ⟨rfl, rfl⟩ := Prod.mk.inj hx
      rw [q_peek_self]
      rfl
    · rw [q_peek_of_ne pkt s hx]
  · rw [peek, TxState.pool_log, TxState.pool_modifyQ]
    exact ⟨rfl, rfl⟩

theorem dequeueLoop_calm (hs : Tidy p s) :
    Calm p k s (dequeueLoop p k r c (s.q r c).list 0 s).2 := by
  have hpath := dequeueLoop_path (p := p) (k := k) r c _ 0 s rfl
  cases hlist : (s.q r c).list with
  | nil => exact .refl hs
  | cons pkt rest =>
    have hlist' : ((peek r c pkt s).q r c).list = pkt :: rest := by simp [hlist]
    rw [hlist] at hpath
    refine .of_path hpath hs ?_
    rw [dequeueLoop]
    split_ifs with hguard
    · cases hfwd : forward p k r c pkt (peek r c pkt s) with
      | none => exact Or.inr (peek_rests ..)
      | some s' =>
        -- a packet is sent
        have hgo := dequeueLoop_lt_of_forward (k := k) hs hlist (by simpa using hguard.1)
          (by have := hguard.2; omega) ⟨s', hfwd⟩
        rw [hlist, dequeueLoop, if_pos hguard, hfwd] at hgo
        exact Or.inl hgo
    · exact Or.inr (peek_rests ..)

end

theorem rl_waitForTimer (r : RlId K D) (c : C) (s : TxState K D C) :
    (waitForTimer r c s).rl = s.rl := by
  unfold waitForTimer startTimer linkActive
  split_ifs <;> rfl

theorem waitForTimer_calm (hs : Tidy p s) : Calm p k s (waitForTimer r c s) :=
  .of_path (waitForTimer_path r c s) hs (Or.inr (.of_rl (rl_waitForTimer r c s)))

/-- A dequeue that does not lower the potential leaves the packets and the refills alone. -/
theorem isoRlDequeue_calm (r : RlId K D) (c : C) (hs : Tidy p s) :
    Calm p k s (isoRlDequeue p k r c s).2 := by
  have hwith : ∀ {unlock : TxState K D C → TxState K D C} {r : RlId K D} {s : TxState K D C},
      (∀ s, Tidy p s → Calm p k s (unlock s)) → Tidy p s →
      Calm p k s (dequeueWith unlock p k r c s).2 := by
    intro unlock r s hunlock hs
    exact dequeueWith_keeps (P := Calm p k s)
      (fun s' h hlow => h.trans (isoRlBorrowTokens_calm h.tidy hlow))
      (fun s' h => h.trans (dequeueLoop_calm h.tidy)) (fun s' h => h.trans (hunlock s' h.tidy))
      (fun s' h => h.trans (waitForTimer_calm h.tidy)) (.refl hs)
  cases r with
  | txc t => exact hwith (fun s hs => .refl hs) hs
  | dest t d =>
    rw [isoRlDequeue]
    exact hwith (fun s hs => hwith (fun s hs => .refl hs) hs) hs

/-- A dequeue changes its own queue and the one that it feeds. -/
theorem q_isoRlDequeue_of_ne (r : RlId K D) (c : C) (s : TxState K D C) {r' : RlId K D} {c' : C}
    (hne : (r', c') ≠ (r, c)) (honward : (r', c') ∉ onward r c) :
    (isoRlDequeue p k r c s).2.q r' c' = s.q r' c' := by
  have hwith : ∀ {unlock : TxState K D C → TxState K D C} {r : RlId K D} {s : TxState K D C},
      (r', c') ≠ (r, c) → (r', c') ∉ onward r c → (∀ s, (unlock s).q r' c' = s.q r' c') →
      (dequeueWith unlock p k r c s).2.q r' c' = s.q r' c' := by
    intro unlock r s hne honward hunlock
    refine dequeueWith_keeps (P := fun x => x.q r' c' = s.q r' c')
      (fun x hx _ => ?_) (fun x hx => ?_)
      (fun x hx => (hunlock x).trans hx) (fun x hx => ?_) rfl
    · rcases isoRlBorrowTokens_cases p k r c x with hfail | ⟨-, hb⟩
      · rw [hfail]
        exact hx
      · exact (hb.other r' c' hne).trans hx
    · exact ((dequeueLoop_frame r c _ 0 x rfl).2.1 r' c' hne honward).trans hx
    · rw [TxState.q, rl_waitForTimer]
      exact hx
  cases r with
  | txc t => exact hwith hne honward fun _ => rfl
  | dest t d =>
    rw [isoRlDequeue]
    exact hwith hne honward fun s => hwith honward (Set.notMem_empty _) fun _ => rfl

end Dequeue

/-! ### One queue is served -/

section Serve

variable [Fintype C] {p : Params} {k : Kernel} {F : Set C} {s s' : TxState K D C}
  {c : C} {x y : RlId K D × C} {n : ℕ}

/-- A state from which the queues are drained. -/
structure Draining (p : Params) (F : Set C) (s : TxState K D C) : Prop where
  awake : Awake ∅ F s
  tidy : Tidy p s
  paced : Paced s

/-- The queue `y` is on the list of its CPU `c`, behind `i` others, and not blocked. -/
structure Waits (p : Params) (c : C) (y : RlId K D × C) (i : ℕ) (s : TxState K D C) : Prop where
  mem : y ∈ (s.cb c).activeList
  pos : (s.cb c).activeList.idxOf y = i
  productive : Productive p s y

omit [Fintype C] in
theorem path_reads (h : IsPath (Inner p k) s s') : s.reads ≤ s'.reads := by
  induction h with
  | refl => exact le_rfl
  | tail _ hlast ih =>
    cases hlast with
    | clock r => exact ih.trans (reads_le_isoRlClock p k r _)
    | borrow r c hlow =>
      rcases isoRlBorrowTokens_cases p k r c _ with hfail | ⟨-, hb⟩
      · rw [hfail]
        exact ih
      · exact ih.trans hb.reads.ge
    | peek r c pkt rest hlist => exact ih
    | forward _ r c pkt rest hlist htokens hforward =>
      exact ih.trans ((Inner.forward _ _ r c pkt rest hlist htokens hforward).turn r).reads
    | schedule _ hrl hbytes htrace hreads => exact ih.trans hreads

theorem serve_path (p : Params) (k : Kernel) (c : C) (x : RlId K D × C) (s : TxState K D C) :
    IsPath (Inner p k) s (serve p k c x s).2 := by
  have hdel : Inner p k s (listDelInit c x s) := modifyCb_inner s c _ fun _ => rfl
  exact .head hdel (.head (Inner.clock _ x.1) (isoRlDequeue_path x.1 x.2 _))

theorem Draining.serve (h : Draining p F s) (hexit : p.isoExiting = false) (c : C)
    (x : RlId K D × C) : Draining p F (serve p k c x s).2 where
  awake := isoRlDequeue_awake hexit x.1 x.2
    (isoRlClock_awake p k x.1 (listDelInit_awake c x h.awake))
  tidy := path_tidy (serve_path p k c x s) h.tidy
  paced := path_paced (serve_path p k c x s) h.paced

omit [DecidableEq K] [DecidableEq D] [DecidableEq C] [Fintype C] in
/-- What the queues hold decides whether one of them is blocked. -/
theorem Productive.congr (h : Productive p s y) (hload : ∀ r, (s'.q r y.2).load = (s.q r y.2).load)
    (hdest : ∀ t d, y.1 = .dest t d → s'.q y.1 y.2 = s.q y.1 y.2) : Productive p s' y := by
  obtain ⟨r, c⟩ := y
  obtain ⟨pkt, rest, hlist, hgo⟩ := h
  have hlist' : (s'.q r c).list = (s.q r c).list := congrArg Load.list (hload r)
  refine ⟨pkt, rest, hlist'.trans hlist, ?_⟩
  cases r with
  | txc t => trivial
  | dest t d =>
    have hbytes : (s'.q (.txc t) c).bytesEnqueued = (s.q (.txc t) c).bytesEnqueued :=
      congrArg Load.bytes (hload (.txc t))
    dsimp only at hgo ⊢
    rw [hdest t d rfl, isoRlHasSpaceFor, hbytes]
    exact hgo

/-- A queue that is due and not blocked gets on when it is served. -/
theorem serve_potential_lt (hp : p.Roomy) (hlock : ∀ n, k.trylock n = true)
    (h : Draining p F s) (hdue : Due p k n x.1 s) (hn : (serve p k c x s).2.reads ≤ n)
    (hprod : Productive p s x) : potential k (serve p k c x s).2 < potential k s := by
  have hdel : Inner p k s (listDelInit c x s) := modifyCb_inner s c _ fun _ => rfl
  have htidy := hdel.tidy h.tidy
  have hpaced := path_paced (.single hdel) h.paced
  have hdue' : Due p k n x.1 (listDelInit c x s) := hdue.of_pool rfl rfl le_rfl
  have htotal := totalTokens_isoRlClock_pos hp hpaced htidy.toSolvent hdue'
    ((path_reads (isoRlDequeue_path (p := p) (k := k) x.1 x.2 _)).trans hn)
  have htidy' := (Inner.clock (p := p) (k := k) (listDelInit c x s) x.1).tidy htidy
  have hq : ∀ r c', (isoRlClock p k x.1 (listDelInit c x s)).q r c' = s.q r c' :=
    fun r c' => q_isoRlClock ..
  have hprod' : Productive p (isoRlClock p k x.1 (listDelInit c x s)) (x.1, x.2) :=
    hprod.congr (fun r => by rw [hq]) fun _ _ _ => hq ..
  have hroot : ∀ (t : K) (s : TxState K D C),
      IsPath (Inner p k) s (dequeueWith id p k (.txc t) x.2 s).2 :=
    fun t s => dequeueWith_path (fun _ => .refl) (.txc t) x.2 s
  rw [← potential_congr (k := k) hq, serve]
  generalize isoRlClock p k x.1 (listDelInit c x s) = s₁ at htotal htidy' hprod' ⊢
  obtain ⟨r, c'⟩ := x
  cases r with
  | txc t => exact dequeueWith_potential_lt (fun _ => .refl) hp hlock htidy' htotal hprod'
  | dest t d =>
    rw [isoRlDequeue]
    exact dequeueWith_potential_lt (hroot t) hp hlock htidy' htotal hprod'

/-- While another queue of its CPU is served, a queue that waits moves up, if the potential does not
fall. -/
theorem serve_waits {l : List (RlId K D × C)} {i : ℕ} (h : Draining p F s)
    (hlist : (s.cb c).activeList = x :: l) (hxy : x ≠ y) (hwaits : Waits p c y i s)
    (hdue : Due p k n y.1 s) :
    potential k (serve p k c x s).2 < potential k s ∨
      0 < i ∧ Waits p c y (i - 1) (serve p k c x s).2 ∧ Due p k n y.1 (serve p k c x s).2 := by
  have hx : x.2 = c := h.awake.own c x (by rw [hlist]; exact List.mem_cons_self)
  have hy : y.2 = c := h.awake.own c y hwaits.mem
  have hne : y.1 ≠ x.1 := fun heq => hxy (Prod.ext heq.symm (hx.trans hy.symm))
  have hdel : Inner p k s (listDelInit c x s) := modifyCb_inner s c _ fun _ => rfl
  have htidy := (Inner.clock (p := p) (k := k) (listDelInit c x s) x.1).tidy (hdel.tidy h.tidy)
  have hq : ∀ r c', (isoRlClock p k x.1 (listDelInit c x s)).q r c' = s.q r c' :=
    fun r c' => q_isoRlClock ..
  have hcalm := isoRlDequeue_calm (k := k) x.1 x.2 htidy
  rcases hcalm.rests with hlt | hrests
  · rw [potential_congr hq] at hlt
    exact Or.inl hlt
  · right
    have hmem : y ∈ l := by
      have := hwaits.mem
      rw [hlist] at this
      exact (List.mem_cons.1 this).resolve_left hxy.symm
    obtain ⟨added, hadded, -⟩ := activeList_serve (p := p) (k := k) hx hlist
    have hpos : l.idxOf y + 1 = i := by
      rw [← hwaits.pos, hlist, List.idxOf_cons_ne _ hxy]
    refine ⟨by omega, ⟨?_, ?_, ?_⟩, ?_⟩
    · rw [hadded]
      exact List.mem_append_left _ hmem
    · rw [hadded, List.idxOf_append_of_mem hmem]
      omega
    · refine hwaits.productive.congr (fun r => ?_) fun t d hdest => ?_
      · exact (hrests.load r y.2).trans (by rw [hq])
      · refine (q_isoRlDequeue_of_ne x.1 x.2 _ (fun heq => hne (Prod.mk.inj heq).1) ?_).trans
          (hq ..)
        -- a destination's queue is fed by no other
        rw [hdest]
        cases x.1 with
        | txc t' => exact Set.notMem_empty _
        | dest t' d' => simp [onward]
    · have hpool := hrests.pool y.1
      rw [pool_isoRlClock_of_ne p k _ hne] at hpool
      exact hdue.of_pool hpool.1 hpool.2 (path_reads (serve_path p k c x s))

end Serve

/-! ### One run of the tasklet -/

section Tasklet

variable [Fintype C] {p : Params} {k : Kernel} {s s' : TxState K D C} {c : C}
  {y : RlId K D × C} {i n : ℕ}

/-- A pass of the loop serves the first queue and goes on with the next one, if there is one. -/
theorem taskletLoop_serve {first : Option (RlId K D × C)} {x : RlId K D × C}
    {l : List (RlId K D × C)} {count sent : ℕ} (fuel : ℕ) (hx : x.2 = c)
    (hlist : (s.cb c).activeList = x :: l)
    (hgo : ¬ (l.head? = first ∨ count + 1 > budget ∨ sent > 2 * p.isoMinBurstBytes)) :
    taskletLoop p k c first (fuel + 1) (some x) l.head? count sent s = (serve p k c x s).2 ∨
      ∃ z l' count' sent', ((serve p k c x s).2.cb c).activeList = z :: l' ∧
        taskletLoop p k c first (fuel + 1) (some x) l.head? count sent s
          = taskletLoop p k c first fuel (some z) l'.head? count' sent' (serve p k c x s).2 := by
  have hpass : taskletLoop p k c first (fuel + 1) (some x) l.head? count sent s
      = taskletLoop p k c first fuel l.head?
      (Klist.next ((serve p k c x s).2.cb c).activeList l.head?)
        (count + 2) (u32 (sent + (serve p k c x s).1)) (serve p k c x s).2 := by
    rw [taskletLoop, if_neg hgo]
    rfl
  obtain ⟨added, hadded, -⟩ := activeList_serve (p := p) (k := k) hx hlist
  rw [hpass]
  cases l with
  | nil =>
    left
    cases fuel with
    | zero => rfl
    | succ fuel => rfl
  | cons z l =>
    refine Or.inr ⟨z, l ++ added, count + 2, u32 (sent + (serve p k c x s).1), hadded, ?_⟩
    rw [hadded, List.head?_cons, List.cons_append, Klist.next_cons_self]

section Keeps

variable {P : TxState K D C → Prop} (hown : ∀ s, P s → ∀ x ∈ (s.cb c).activeList, x.2 = c)
  (hserve : ∀ x l s, P s → (s.cb c).activeList = x :: l → (serve p k c x s).2.reads ≤ n →
    P (serve p k c x s).2)

include hown hserve

/-- What serving the first queue keeps, the loop keeps, if it does not read the clock after `n`. -/
theorem taskletLoop_keeps (first : Option (RlId K D × C)) :
    ∀ (fuel : ℕ) (x : RlId K D × C) (l : List (RlId K D × C)) (count sent : ℕ) (s : TxState K D C),
      P s → (s.cb c).activeList = x :: l →
      (taskletLoop p k c first fuel (some x) l.head? count sent s).reads ≤ n →
      P (taskletLoop p k c first fuel (some x) l.head? count sent s) := by
  intro fuel
  induction fuel with
  | zero => exact fun x l count sent s hs _ _ => hs
  | succ fuel ih =>
    intro x l count sent s hs hlist hn
    by_cases hgo : l.head? = first ∨ count + 1 > budget ∨ sent > 2 * p.isoMinBurstBytes
    · rw [taskletLoop, if_pos hgo]
      exact hs
    · have hx : x.2 = c := hown s hs x (by rw [hlist]; exact List.mem_cons_self)
      rcases taskletLoop_serve (p := p) (k := k) fuel hx hlist hgo with heq | ⟨z, l',
        count', sent', hl', heq⟩
      · rw [heq] at hn ⊢
        exact hserve x l s hs hlist hn
      · rw [heq] at hn ⊢
        have hreads := path_reads (taskletLoop_path (p := p) (k := k) c first fuel
          (some z) l'.head? count' sent' (serve p k c x s).2)
        exact ih z l' count' sent' _ (hserve x l s hs hlist (hreads.trans hn)) hl' hn

/-- The first queue on the list is always served. -/
theorem taskletWalk_keeps (hn : (taskletWalk p k c s).reads ≤ n) {x : RlId K D × C}
    {l : List (RlId K D × C)} (hlist : (s.cb c).activeList = x :: l) (hx : x.2 = c)
    (hnd : (s.cb c).activeList.Nodup)
    (hs' : (serve p k c x s).2.reads ≤ n → P (serve p k c x s).2) :
    P (taskletWalk p k c s) := by
  have hgo : ¬ (l.head? = some x ∨ 0 + 1 > budget ∨ 0 > 2 * p.isoMinBurstBytes) := by
    rintro (hhead | hcount | hsent)
    · rw [hlist] at hnd
      exact (List.nodup_cons.1 hnd).1 (List.mem_of_mem_head? hhead)
    · exact absurd hcount (by decide)
    · exact Nat.not_lt_zero _ hsent
  obtain ⟨fuel, hfuel⟩ : ∃ fuel, taskletFuel = fuel + 1 := ⟨budget / 2, rfl⟩
  rw [taskletWalk, hlist, List.head?_cons, Klist.next_cons_self, hfuel] at hn ⊢
  rcases taskletLoop_serve (p := p) (k := k) fuel hx hlist hgo with heq | ⟨z, l',
    count', sent', hl', heq⟩
  · rw [heq] at hn ⊢
    exact hs' hn
  · rw [heq] at hn ⊢
    have hreads := path_reads (taskletLoop_path (p := p) (k := k) c (some x) fuel
      (some z) l'.head? count' sent' (serve p k c x s).2)
    exact taskletLoop_keeps hown hserve _ fuel z l' count' sent' _ (hs' (hreads.trans hn)) hl' hn

end Keeps

/-- The queues of CPU `c` and their order on its list are the same. -/
structure Apart (c : C) (s s' : TxState K D C) : Prop where
  list : (s'.cb c).activeList = (s.cb c).activeList
  q : ∀ r, s'.q r c = s.q r c

omit [DecidableEq K] [DecidableEq D] [DecidableEq C] [Fintype C] in
theorem Apart.trans {s'' : TxState K D C} (h : Apart c s s') (h' : Apart c s' s'') :
    Apart c s s'' :=
  ⟨h'.list.trans h.list, fun r => (h'.q r).trans (h.q r)⟩

omit [DecidableEq K] [DecidableEq D] [Fintype C] in
theorem modifyCb_apart {c' : C} (f : Cb K D C → Cb K D C)
    (hf : c' ≠ c ∨ ∀ cb, (f cb).activeList = cb.activeList) (s : TxState K D C) :
    Apart c s (s.modifyCb c' f) := by
  refine ⟨?_, fun _ => rfl⟩
  by_cases hc : c = c'
  · subst hc
    rw [TxState.cb_modifyCb_self]
    exact (hf.resolve_left (absurd rfl)) _
  · rw [TxState.cb_modifyCb_of_ne _ _ hc]

omit [Fintype C] in
theorem Waits.apart (h : Waits p c y i s) (hy : y.2 = c) (ha : Apart c s s') :
    Waits p c y i s' := by
  subst hy
  refine ⟨ha.list ▸ h.mem, ha.list ▸ h.pos, h.productive.congr (fun r => ?_) fun _ _ _ => ha.q _⟩
  rw [ha.q]

/-- A dequeue on another CPU. -/
theorem isoRlDequeue_apart {c' : C} (hc : c' ≠ c) (r : RlId K D) (s : TxState K D C) :
    Apart c s (isoRlDequeue p k r c' s).2 := by
  have hwait : ∀ (r : RlId K D) (s : TxState K D C), Apart c s (waitForTimer r c' s) := by
    intro r s
    have hlink : Apart c s (linkActive r c' s) := by
      unfold linkActive
      split_ifs
      · exact ⟨rfl, fun _ => rfl⟩
      · exact modifyCb_apart _ (Or.inl hc) s
    refine hlink.trans ?_
    unfold waitForTimer startTimer
    split_ifs
    · exact ⟨rfl, fun _ => rfl⟩
    · exact modifyCb_apart _ (Or.inl hc) _
  have hwith : ∀ {unlock : TxState K D C → TxState K D C} (r : RlId K D) (s : TxState K D C),
      (∀ s, Apart c s (unlock s)) → Apart c s (dequeueWith unlock p k r c' s).2 := by
    intro unlock r s hunlock
    have hne : ∀ r₁ : RlId K D, (r₁, c) ≠ (r, c') := fun r₁ h => hc (Prod.mk.inj h).2.symm
    refine dequeueWith_keeps (P := Apart c s) (fun x hx _ => hx.trans ?_) (fun x hx => hx.trans ?_)
      (fun x hx => hx.trans (hunlock x)) (fun x hx => hx.trans (hwait r x)) ⟨rfl, fun _ => rfl⟩
    · rcases isoRlBorrowTokens_cases p k r c' x with hfail | ⟨-, hb⟩
      · rw [hfail]
        exact ⟨rfl, fun _ => rfl⟩
      · exact ⟨by rw [hb.cb], fun r₁ => hb.other r₁ c (hne r₁)⟩
    · obtain ⟨hsame, hq, -⟩ := dequeueLoop_frame (p := p) (k := k) r c' _ 0 x rfl
      refine ⟨(hsame c).1, fun r₁ => hq r₁ c (hne r₁) ?_⟩
      cases r with
      | txc t => exact Set.notMem_empty _
      | dest t d => exact fun h => hc (Prod.mk.inj h).2.symm
  cases r with
  | txc t => exact hwith _ s fun _ => ⟨rfl, fun _ => rfl⟩
  | dest t d =>
    rw [isoRlDequeue]
    exact hwith _ s fun s => hwith _ s fun _ => ⟨rfl, fun _ => rfl⟩

theorem serve_apart {c' : C} (hc : c' ≠ c) {x : RlId K D × C} (hx : x.2 = c') (s : TxState K D C) :
    Apart c s (serve p k c' x s).2 := by
  subst hx
  have hclock : Apart c (listDelInit x.2 x s) (isoRlClock p k x.1 (listDelInit x.2 x s)) :=
    ⟨by rw [cb_isoRlClock], fun _ => q_isoRlClock ..⟩
  exact ((modifyCb_apart _ (Or.inl hc) s).trans hclock).trans (isoRlDequeue_apart hc x.1 _)

/-- The walk of another CPU. -/
theorem taskletWalk_apart {c' : C} {F : Set C} (hexit : p.isoExiting = false) (hc : c' ≠ c)
    (h : Draining p F s) : Apart c s (taskletWalk p k c' s) := by
  cases hlist : (s.cb c').activeList with
  | nil =>
    rw [taskletWalk, hlist]
    exact ⟨rfl, fun _ => rfl⟩
  | cons x l =>
    have hx : x.2 = c' := h.awake.own c' x (by rw [hlist]; exact List.mem_cons_self)
    refine (taskletWalk_keeps (P := fun s₁ => Draining p F s₁ ∧ Apart c s s₁)
      (fun s₁ h₁ => h₁.1.awake.own c') (fun z l s₁ h₁ hl _ => ?_) le_rfl hlist hx (h.awake.nodup c')
      fun _ => ⟨h.serve hexit c' x, serve_apart hc hx s⟩).2
    have hz : z.2 = c' := h₁.1.awake.own c' z (by rw [hl]; exact List.mem_cons_self)
    exact ⟨h₁.1.serve hexit c' z, h₁.2.trans (serve_apart hc hz s₁)⟩

/-- Unless the potential falls, the queue moves up on the list. -/
theorem taskletWalk_waits {F : Set C} (hp : p.Roomy) (hexit : p.isoExiting = false)
    (hlock : ∀ n, k.trylock n = true) (h : Draining p F s)
    (hwaits : Waits p c y i s) (hdue : Due p k n y.1 s) (hn : (taskletWalk p k c s).reads ≤ n) :
    potential k (taskletWalk p k c s) < potential k s ∨
      ∃ j, j < i ∧ Waits p c y j (taskletWalk p k c s) := by
  have hstep : ∀ {x l j} {s₁ : TxState K D C}, Draining p F s₁ → (s₁.cb c).activeList = x :: l →
      Waits p c y j s₁ → Due p k n y.1 s₁ → (serve p k c x s₁).2.reads ≤ n →
      potential k (serve p k c x s₁).2 < potential k s₁ ∨
        0 < j ∧ Waits p c y (j - 1) (serve p k c x s₁).2 ∧ Due p k n y.1 (serve p k c x s₁).2 := by
    intro x l j s₁ h₁ hl hw hd hn
    by_cases hxy : x = y
    · subst hxy
      exact Or.inl (serve_potential_lt hp hlock h₁ hd hn hw.productive)
    · exact serve_waits h₁ hl hxy hw hd
  have hle : ∀ {x} {s₁ : TxState K D C}, Draining p F s₁ →
      potential k (serve p k c x s₁).2 ≤ potential k s₁ :=
    fun h₁ => path_potential_le (serve_path ..) h₁.tidy
  obtain ⟨x, l, hlist⟩ := List.exists_cons_of_ne_nil (List.ne_nil_of_mem hwaits.mem)
  have hx : x.2 = c := h.awake.own c x (by rw [hlist]; exact List.mem_cons_self)
  have hwalk := taskletWalk_keeps (p := p) (k := k)
    (P := fun s₁ => Draining p F s₁ ∧ potential k s₁ ≤ potential k s ∧
      (potential k s₁ < potential k s ∨ ∃ j, j < i ∧ Waits p c y j s₁ ∧ Due p k n y.1 s₁))
    (fun s₁ h₁ => h₁.1.awake.own c) (fun z l s₁ hinv hl hn' => ?_) hn hlist hx (h.awake.nodup c)
    fun hn' => ⟨h.serve hexit c x, hle h, ?_⟩
  · rcases hwalk.2.2 with hlt | ⟨j, hj, hw, -⟩
    · exact Or.inl hlt
    · exact Or.inr ⟨j, hj, hw⟩
  · obtain ⟨h₁, hle₁, hor⟩ := hinv
    refine ⟨h₁.serve hexit c z, (hle h₁).trans hle₁, ?_⟩
    rcases hor with hlt | ⟨j, hj, hw, hd⟩
    · exact Or.inl ((hle h₁).trans_lt hlt)
    · rcases hstep h₁ hl hw hd hn' with hlt | ⟨hpos, hw', hd'⟩
      · exact Or.inl (hlt.trans_le hle₁)
      · exact Or.inr ⟨j - 1, by omega, hw', hd'⟩
  · rcases hstep h hlist hwaits hdue hn' with hlt | ⟨hpos, hw', hd'⟩
    · exact Or.inl hlt
    · exact Or.inr ⟨i - 1, by omega, hw', hd'⟩

end Tasklet

/-! ### Rounds -/

section Round

variable [Fintype C] {p : Params} {k : Kernel} {s : TxState K D C} {c : C}
  {y : RlId K D × C} {i : ℕ}

/-- The timer of CPU `c` expires, if it is armed, and the tasklet runs, if it is scheduled. -/
def round (p : Params) (k : Kernel) (c : C) (s : TxState K D C) : TxState K D C :=
  let s := isoRlTimeout c s
  if (s.cb c).xmitTimeout then isoRlXmitTasklet p k c s else s

/-- The state after `n` rounds, the `i`-th of them on CPU `sched i`. -/
def rounds (p : Params) (k : Kernel) (sched : ℕ → C) (s : TxState K D C) : ℕ → TxState K D C
  | 0 => s
  | n + 1 => round p k (sched n) (rounds p k sched s n)

omit [DecidableEq K] [DecidableEq D] [Fintype C] in
theorem isoRlTimeout_apart (c c' : C) (s : TxState K D C) : Apart c s (isoRlTimeout c' s) := by
  unfold isoRlTimeout
  split_ifs
  · refine modifyCb_apart _ (Or.inr fun cb => ?_) s
    rfl
  · exact ⟨rfl, fun _ => rfl⟩

omit [DecidableEq K] [DecidableEq D] [Fintype C] in
theorem started_apart (c c' : C) (s : TxState K D C) : Apart c s (started c' s) := by
  have hrun : Apart c s (s.modifyCb c' fun cb => { cb with xmitTimeout := false }) := by
    refine modifyCb_apart _ (Or.inr fun cb => ?_) s
    rfl
  exact ⟨hrun.list, hrun.q⟩

/-- The tasklet is the walk, but for its timer. -/
theorem isoRlXmitTasklet_apart (hexit : p.isoExiting = false) (c c' : C) (s : TxState K D C) :
    Apart c (taskletWalk p k c' (started c' s)) (isoRlXmitTasklet p k c' s) := by
  unfold isoRlXmitTasklet started
  simp only [hexit, Bool.false_eq_true, ↓reduceIte]
  split_ifs
  · exact ⟨rfl, fun _ => rfl⟩
  · refine modifyCb_apart _ (Or.inr fun cb => ?_) _
    rfl

omit [Fintype C] in
theorem isoRlTimeout_path (c : C) (s : TxState K D C) :
    IsPath (Inner p k) s (isoRlTimeout c s) := by
  unfold isoRlTimeout
  split_ifs
  · exact .single (modifyCb_inner s c _ fun _ => rfl)
  · exact .refl

omit [Fintype C] in
theorem started_path (c : C) (s : TxState K D C) : IsPath (Inner p k) s (started c s) := by
  have hrun : Inner p k s (s.modifyCb c fun cb => { cb with xmitTimeout := false }) :=
    modifyCb_inner s c _ fun _ => rfl
  exact .head hrun (.single (Inner.schedule _ _ rfl (fun _ => rfl) rfl (Nat.le_succ _)))

theorem round_path (c : C) (s : TxState K D C) : IsPath (Inner p k) s (round p k c s) := by
  unfold round
  dsimp only
  split_ifs
  · exact (isoRlTimeout_path c s).trans (isoRlXmitTasklet_path c _)
  · exact isoRlTimeout_path c s

omit [Fintype C] in
theorem Draining.of_path {F F' : Set C} {s' : TxState K D C} (h : Draining p F s)
    (hpath : IsPath (Inner p k) s s') (hawake : Awake ∅ F' s') : Draining p F' s' :=
  ⟨hawake, path_tidy hpath h.tidy, path_paced hpath h.paced⟩

theorem Draining.timeout (k : Kernel) (hexit : p.isoExiting = false) (c : C) (h : Draining p ∅ s) :
    Draining p ∅ (isoRlTimeout c s) :=
  h.of_path (isoRlTimeout_path (k := k) c s)
    (step_awake (k := k) hexit s (.timeout c) trivial h.awake)

omit [Fintype C] in
theorem Draining.started (k : Kernel) (c : C) (h : Draining p ∅ s) :
    Draining p {c} (started c s) := by
  -- while the tasklet runs nothing wakes its CPU up
  have hrun : Awake ∅ {c} (s.modifyCb c fun cb => { cb with xmitTimeout := false }) := by
    refine modifyCb_awake c _ (fun cb => ?_) (fun _ _ hin => absurd hin (Set.notMem_empty _))
      (fun hc => absurd (Set.mem_singleton c) hc) h.awake
    rfl
  exact h.of_path (started_path (k := k) c s) hrun.read

theorem Draining.round (hexit : p.isoExiting = false) (c : C) (h : Draining p ∅ s) :
    Draining p ∅ (round p k c s) := by
  refine h.of_path (round_path c s) ?_
  have htimeout := (h.timeout k hexit c).awake
  unfold Rl.round
  dsimp only
  split_ifs
  · exact isoRlXmitTasklet_awake hexit c htimeout
  · exact htimeout

/-- A CPU with queues on its list runs its tasklet. -/
theorem round_of_ne_nil (h : Draining p ∅ s) (hne : (s.cb c).activeList ≠ []) :
    round p k c s = isoRlXmitTasklet p k c (isoRlTimeout c s) := by
  refine if_pos ?_
  unfold isoRlTimeout
  split_ifs with htimer
  · rw [TxState.cb_modifyCb_self]
  · exact (h.awake.armed c (Set.notMem_empty _) hne).resolve_left htimer

/-- Unless the potential falls in a round of its CPU, a queue moves up on the list. -/
theorem round_waits (hp : p.Roomy) (hexit : p.isoExiting = false) (hlock : ∀ n, k.trylock n = true)
    (h : Draining p ∅ s) (hwaits : Waits p c y i s) (hdue : Due p k (round p k c s).reads y.1 s) :
    potential k (round p k c s) < potential k s ∨ ∃ j, j < i ∧ Waits p c y j (round p k c s) := by
  have hy : y.2 = c := h.awake.own c y hwaits.mem
  rw [round_of_ne_nil h (List.ne_nil_of_mem hwaits.mem)] at hdue ⊢
  have htimeout := h.timeout k hexit c
  have hbefore : ∀ c', Apart c' s (started c (isoRlTimeout c s)) :=
    fun c' => (isoRlTimeout_apart c' c s).trans (started_apart c' c _)
  have hafter : ∀ c', Apart c' (taskletWalk p k c (started c (isoRlTimeout c s)))
      (isoRlXmitTasklet p k c (isoRlTimeout c s)) := fun c' => isoRlXmitTasklet_apart hexit c' c _
  have hrl : (started c (isoRlTimeout c s)).rl = s.rl := by
    unfold isoRlTimeout
    split_ifs <;> rfl
  have hpool := (Rests.of_rl hrl).pool y.1
  have hreads := path_reads ((isoRlTimeout_path (p := p) (k := k) c s).trans (started_path c _))
  have hwalked : (taskletWalk p k c (started c (isoRlTimeout c s))).reads ≤
      (isoRlXmitTasklet p k c (isoRlTimeout c s)).reads := by
    unfold isoRlXmitTasklet started
    simp only [hexit, Bool.false_eq_true, ↓reduceIte]
    split_ifs <;> exact le_rfl
  have hwalk := taskletWalk_waits hp hexit hlock (htimeout.started k c)
    (hwaits.apart hy (hbefore c)) (hdue.of_pool hpool.1 hpool.2 hreads) hwalked
  rw [potential_congr fun r c' => (hbefore c').q r, ← potential_congr fun r c' =>
    (hafter c').q r] at hwalk
  rcases hwalk with hlt | ⟨j, hj, hw⟩
  · exact Or.inl hlt
  · exact Or.inr ⟨j, hj, hw.apart hy (hafter c)⟩

/-- A round of another CPU leaves a queue in its place. -/
theorem round_waits_of_ne {c' : C} (hexit : p.isoExiting = false) (h : Draining p ∅ s)
    (hc : c' ≠ c) (hwaits : Waits p c y i s) : Waits p c y i (round p k c' s) := by
  have hy : y.2 = c := h.awake.own c y hwaits.mem
  refine hwaits.apart hy ?_
  have htimeout := isoRlTimeout_apart c c' s
  unfold round
  dsimp only
  split_ifs
  · exact htimeout.trans ((started_apart c c' _).trans
      ((taskletWalk_apart hexit hc ((h.timeout k hexit c').started k c')).trans
        (isoRlXmitTasklet_apart hexit c c' _)))
  · exact htimeout

end Round

/-! ### All queues drain -/

section Drain

variable [Fintype C] {p : Params} {k : Kernel} {s : TxState K D C}

omit [DecidableEq K] [DecidableEq D] [DecidableEq C] [Fintype C] in
/-- While packets are left, some queue is not blocked. -/
theorem exists_productive (hp : p.Roomy) (hocc : Occupied p s) {r : RlId K D} {c : C}
    (hne : (s.q r c).list ≠ []) : ∃ r', Productive p s (r', c) := by
  obtain ⟨pkt, rest, hlist⟩ := List.exists_cons_of_ne_nil hne
  have hclass : ∀ t, (s.q (.txc t) c).list ≠ [] → Productive p s (.txc t, c) := by
    intro t hne
    obtain ⟨pkt, rest, hlist⟩ := List.exists_cons_of_ne_nil hne
    exact ⟨pkt, rest, hlist, trivial⟩
  cases r with
  | txc t => exact ⟨.txc t, hclass t hne⟩
  | dest t d =>
    by_cases hempty : (s.q (.txc t) c).list = []
    · -- an empty class-level queue has space for any packet
      have hbytes : (s.q (.txc t) c).bytesEnqueued = 0 := by
        have := (hocc (.txc t) c).1
        rw [show (s.q (.txc t) c).load.list = [] from hempty] at this
        exact this
      have hsize : pkt.size ≤ maxLen + ethHlen := pkt.size_le
      have hqueue := hp.queue
      refine ⟨.dest t d, pkt, rest, hlist, Or.inr (Or.inr ?_)⟩
      rw [isoRlHasSpaceFor, hbytes, Nat.zero_add, u64_of_lt, decide_eq_true_iff]
      · omega
      · unfold maxLen ethHlen at hsize
        omega
    · exact ⟨.txc t, hclass t hempty⟩

omit [DecidableEq K] [DecidableEq D] [DecidableEq C] in
/-- The active lists hold all queues with packets, so these are finitely many. -/
theorem Awake.finite {F : Set C} (h : Awake ∅ F s) : (backlogged s).Finite := by
  have hlists : (⋃ c, {x | x ∈ (s.cb c).activeList}).Finite :=
    Set.finite_iUnion fun c => List.finite_toSet _
  refine hlists.subset fun x hx => Set.mem_iUnion.2 ⟨x.2, ?_⟩
  exact h.linked x.1 x.2 (Set.notMem_empty _) hx

theorem rounds_draining (hexit : p.isoExiting = false) (sched : ℕ → C)
    (h : Draining p ∅ s) (n : ℕ) :
    Draining p ∅ (rounds p k sched s n) := by
  induction n with
  | zero => exact h
  | succ n ih => exact ih.round hexit (sched n)

theorem antitone_potential_rounds (hexit : p.isoExiting = false) (sched : ℕ → C)
    (h : Draining p ∅ s) :
    Antitone fun n => potential k (rounds p k sched s n) :=
  antitone_nat_of_succ_le fun n =>
    path_potential_le (round_path (sched n) _) (rounds_draining hexit sched h n).tidy

/-- While packets are left, the potential falls in some later round. -/
theorem exists_potential_rounds_lt (hp : p.Roomy) (hexit : p.isoExiting = false)
    (hlock : ∀ n, k.trylock n = true) {sched : ℕ → C}
    (hfair : ∀ c n, ∃ m, n ≤ m ∧ sched m = c) (h : Draining p ∅ s)
    (hdue : ∀ n r, ((rounds p k sched s n).q r (sched n)).list ≠ [] →
      Due p k (rounds p k sched s (n + 1)).reads r (rounds p k sched s n))
    {n : ℕ} {r : RlId K D} {c : C} (hne : ((rounds p k sched s n).q r c).list ≠ []) :
    ∃ m, potential k (rounds p k sched s m) < potential k (rounds p k sched s n) := by
  have hall := rounds_draining (k := k) hexit sched h
  obtain ⟨r', hprod⟩ := exists_productive hp (hall n).tidy.occupied hne
  have hmem : (r', c) ∈ ((rounds p k sched s n).cb c).activeList := by
    refine (hall n).awake.linked r' c (Set.notMem_empty _) ?_
    obtain ⟨pkt, rest, hlist, -⟩ := hprod
    exact hlist ▸ List.cons_ne_nil _ _
  refine exists_lt_of_rank (antitone_potential_rounds hexit sched h) (hfair c)
    (W := fun n i => Waits p c (r', c) i (rounds p k sched s n)) (fun n i hw hturn => ?_)
    (fun n i hw hturn => ?_) n _ ⟨hmem, rfl, hprod⟩
  · exact Or.inr (round_waits_of_ne hexit (hall n) hturn hw)
  · subst hturn
    refine round_waits hp hexit hlock (hall n) hw (hdue n r' ?_)
    obtain ⟨pkt, rest, hlist, -⟩ := hw.productive
    exact hlist ▸ List.cons_ne_nil _ _

/-- **Liveness.**  After any run, in which packets have come in on any CPU, the timers go on to
expire and the tasklets to run, no lock is contended any more, no rate is below 2 Mbit/s, no CPU is
left out for ever, and when the round of a CPU starts, the limiters of its queues with packets are
due for a refill.  Then after some round all queues are empty, and stay so. -/
theorem runFrom_drains (p : Params) (hp : p.Roomy) (hexit : p.isoExiting = false) (k₀ k : Kernel)
    (t : RlId K D → ℕ) (ops : List (Op K D C)) (hops : ∀ op ∈ ops, op.Complete)
    (hlock : ∀ n, k.trylock n = true) (hrate : ∀ r, 2 ≤ ((runFrom p k₀ t ops).pool r).rate)
    (sched : ℕ → C) (hfair : ∀ c n, ∃ m, n ≤ m ∧ sched m = c)
    (hdue : ∀ n r, ((rounds p k sched (runFrom p k₀ t ops) n).q r (sched n)).list ≠ [] →
      Due p k (rounds p k sched (runFrom p k₀ t ops) (n + 1)).reads r
        (rounds p k sched (runFrom p k₀ t ops) n)) :
    ∃ n, ∀ m, n ≤ m → ∀ r c, ((rounds p k sched (runFrom p k₀ t ops) m).q r c).list = [] := by
  have hawake := runFrom_awake k₀ hexit t ops hops
  have h : Draining p ∅ (runFrom p k₀ t ops) :=
    ⟨hawake, ⟨runFrom_solvent p k₀ t ops, hawake.finite⟩, hrate⟩
  have hzero := fun n => potential_eq_zero_iff (k := k)
    (rounds_draining (k := k) hexit sched h n).tidy.finite
  have hprogress : ∀ n, 0 < potential k (rounds p k sched (runFrom p k₀ t ops) n) →
      ∃ m, potential k (rounds p k sched (runFrom p k₀ t ops) m) <
        potential k (rounds p k sched (runFrom p k₀ t ops) n) := by
    intro n hpos
    have hleft : ¬ ∀ r c, ((rounds p k sched (runFrom p k₀ t ops) n).q r c).list = [] :=
      fun hall => hpos.ne' ((hzero n).2 hall)
    push Not at hleft
    obtain ⟨r, c, hne⟩ := hleft
    exact exists_potential_rounds_lt hp hexit hlock hfair h hdue hne
  obtain ⟨n, hn⟩ := exists_forall_eq_zero
    (antitone_potential_rounds (k := k) hexit sched h) hprogress
  exact ⟨n, fun m hm => (hzero m).1 (hn m hm)⟩

theorem round_of_idle {c : C} (htimer : (s.cb c).timer = false)
    (htasklet : (s.cb c).xmitTimeout = false) :
    round p k c s = s := by
  have htimeout : isoRlTimeout c s = s := if_neg (by rw [htimer]; exact Bool.false_ne_true)
  unfold round
  rw [htimeout]
  exact if_neg (by rw [htasklet]; exact Bool.false_ne_true)

/-- The packet of `onePacket`, which has come in while the locks were taken, in rounds in which they
are free. -/
def afterOnePacket (n : ℕ) : TxState Unit Unit Unit :=
  rounds {} Kernel.steady (fun _ => ()) (runFrom {} Kernel.still (fun _ => 0) onePacket) n

theorem afterOnePacket_idle (n : ℕ) : afterOnePacket (n + 2) = afterOnePacket 2 := by
  induction n with
  | zero => rfl
  | succ n ih =>
    show round {} Kernel.steady () (afterOnePacket (n + 2)) = _
    rw [ih]
    exact round_of_idle (by decide +kernel) (by decide +kernel)

theorem runFrom_drains_onePacket :
    ((afterOnePacket 0).q (.dest () ()) ()).list ≠ [] ∧
      ∃ n, ∀ m, n ≤ m → ∀ r c, ((afterOnePacket m).q r c).list = [] := by
  refine ⟨by decide +kernel, runFrom_drains {} Params.roomy_default rfl Kernel.still
    Kernel.steady (fun _ => 0) onePacket ?_ (fun _ => rfl) ?_ (fun _ => ())
    (fun _ n => ⟨n, le_rfl, rfl⟩) ?_⟩
  · intro op hop
    rw [List.mem_singleton.mp hop]
    trivial
  · rintro (⟨⟨⟩⟩ | ⟨⟨⟩, ⟨⟩⟩)
    all_goals decide +kernel
  · intro n r hne
    change ((afterOnePacket n).q r ()).list ≠ [] at hne
    show Due {} Kernel.steady (afterOnePacket (n + 1)).reads r (afterOnePacket n)
    rcases n with _ | _ | n
    · rcases r with ⟨⟨⟩⟩ | ⟨⟨⟩, ⟨⟩⟩
      all_goals exact ⟨by decide +kernel, by decide +kernel⟩
    · rcases r with ⟨⟨⟩⟩ | ⟨⟨⟩, ⟨⟩⟩
      all_goals exact ⟨by decide +kernel, by decide +kernel⟩
    · rw [afterOnePacket_idle] at hne
      rcases r with ⟨⟨⟩⟩ | ⟨⟨⟩, ⟨⟩⟩
      all_goals exact absurd (by decide +kernel) hne

end Drain

end Rl

end EyeQ
