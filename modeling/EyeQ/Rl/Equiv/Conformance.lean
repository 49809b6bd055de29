import EyeQ.Rl.Equiv.Small
import EyeQ.TokenPool.Basic

/-!
# Conformance of a limiter

A limiter is a token pool with hoards (`TokenPool`): the pool is `total_tokens`, refilled by
`iso_rl_clock`, the hoards are the tokens of its queues, and what is spent is `bytes_xmit`.
`tokenPool r s` is the limiter `r` seen that way.

`Turn` says what a small step does to one limiter, and from it follow the step of the token pool
(`Turn.step`) and what the step needs to know of the state (`Metered`).  The refill reads the clock
in nanoseconds and counts whole microseconds, so its tokens are never more than the rate brings; the
rest of the microsecond is lost.

A refill can change the rate it refills at: an idle limiter is cut down to `ISO_IDLE_RATE`, and one
without feedback has its rate halved, but not below `2`.  So within an operation the rate only
falls, or becomes `2` (`Turn.rate`), and a bound on the rates between operations is a bound on all
rates (`step_bounded`).
-/

namespace EyeQ.Rl

open Machine

variable {K D C : Type} [DecidableEq K] [DecidableEq D] [DecidableEq C]

/-! ### One limiter -/

/-- What a small step does to limiter `r`. -/
inductive Turn (p : Params) (k : Kernel) (r : RlId K D) (s s' : TxState K D C) : Prop
  | idle (hpool : s'.pool r = s.pool r) (hmeter : ∀ c, (s'.q r c).meter = (s.q r c).meter)
      (hreads : s.reads ≤ s'.reads)
  | refill (hpool : s'.pool r = Rl.refill p (k.ktime (s.reads + 1)) (s.pool r))
      (hmeter : ∀ c, (s'.q r c).meter = (s.q r c).meter) (hreads : s.reads + 2 ≤ s'.reads)
  | take (c : C) (hlow : (s.q r c).tokens < (s.q r c).firstPktSize)
      (hpool : s'.pool r = { s.pool r with totalTokens := 0 })
      (hmeter : (s'.q r c).meter =
        { (s.q r c).meter with tokens := u64 ((s.q r c).tokens + (s.pool r).totalTokens) })
      (hother : ∀ c', c' ≠ c → (s'.q r c').meter = (s.q r c').meter) (hreads : s.reads = s'.reads)
  | look (c : C) (pkt : Skb) (hhead : Event.head r c pkt ∈ s'.trace) (hpool : s'.pool r = s.pool r)
      (hmeter : (s'.q r c).meter = { (s.q r c).meter with firstPktSize := pkt.size })
      (hother : ∀ c', c' ≠ c → (s'.q r c').meter = (s.q r c').meter) (hreads : s.reads = s'.reads)
  | pay (c : C) (n : ℕ) (htokens : n ≤ (s.q r c).tokens) (hpool : s'.pool r = s.pool r)
      (hmeter : (s'.q r c).meter = { (s.q r c).meter with
        tokens := sub64 (s.q r c).tokens n, bytesXmit := (s.q r c).bytesXmit + n })
      (hother : ∀ c', c' ≠ c → (s'.q r c').meter = (s.q r c').meter)
      (hreads : s.reads ≤ s'.reads)

omit [DecidableEq K] [DecidableEq D] [DecidableEq C] in
theorem Touches.pool {r r' : RlId K D} {c : C} {s s' : TxState K D C} (h : Touches r c s s')
    (hr : r' ≠ r) : s'.pool r' = s.pool r' := by
  rw [TxState.pool, h.rl r' hr, TxState.pool]

omit [DecidableEq C] in
/-- The clock of a limiter refills its pool or leaves it alone.  The step from `s` to `s'` is one
that, seen from the limiter, is the clock at a state `y` like `s`. -/
theorem turn_of_isoRlClock {p : Params} {k : Kernel} {r : RlId K D} {s s' y : TxState K D C}
    (hpool : y.pool r = s.pool r) (hreads : y.reads = s.reads)
    (hpool' : s'.pool r = (isoRlClock p k r y).pool r)
    (hreads' : s'.reads = (isoRlClock p k r y).reads)
    (hmeter : ∀ c, (s'.q r c).meter = (s.q r c).meter) : Turn p k r s s' := by
  by_cases hdue : ktimeUsDelta (k.ktime y.reads) (y.rl r).lastUpdateTime > p.isoRlUpdateIntervalUs
  · have hclock : isoRlClock p k r y
        = (y.read.modifyRl r (Rl.refill p (k.ktime y.read.reads))).read := if_pos hdue
    rw [hclock] at hpool' hreads'
    refine .refill ?_ hmeter ?_
    · rw [hpool', ← hpool, ← hreads, TxState.pool_read, TxState.pool_modifyRl_self]
      rfl
    · rw [hreads', ← hreads]
      exact le_rfl
  · have hclock : isoRlClock p k r y = y.read := if_neg hdue
    rw [hclock] at hpool' hreads'
    refine .idle ?_ hmeter ?_
    · rw [hpool', TxState.pool_read, hpool]
    · rw [hreads', ← hreads]
      exact Nat.le_succ _

/-- Enqueueing turns its limiter's clock and leaves the other limiters alone. -/
theorem isoRlEnqueue_turn (p : Params) (k : Kernel) (r r' : RlId K D) (pkt : Skb) (c : C)
    {s s' y : TxState K D C} (hpool : y.pool r = s.pool r) (hreads : y.reads = s.reads)
    (hmeter : ∀ c, (y.q r c).meter = (s.q r c).meter)
    (hpool' : s'.pool r = (isoRlEnqueue p k r' pkt c y).2.pool r)
    (hreads' : s'.reads = (isoRlEnqueue p k r' pkt c y).2.reads)
    (hmeter' : ∀ c', (s'.q r c').meter = ((isoRlEnqueue p k r' pkt c y).2.q r c').meter) :
    Turn p k r s s' := by
  have hfills := isoRlEnqueue_fills p k r' pkt c y
  rw [hfills.reads] at hreads'
  have hsame : ∀ c', (s'.q r c').meter = (s.q r c').meter := by
    intro c'
    rw [hmeter', ← hmeter, ← q_isoRlClock p k r' r c' y]
    by_cases hx : (r, c') = (r', c)
    · obtain ⟨rfl, rfl⟩ := Prod.mk.inj hx
      exact hfills.meter
    · rw [hfills.q hx]
  -- apart from the clock of its own limiter, an enqueue is not seen by a limiter
  by_cases hr : r = r'
  · subst hr
    exact turn_of_isoRlClock hpool hreads (hpool'.trans hfills.pool) hreads' hsame
  · refine .idle ?_ hsame ?_
    · rw [hpool', hfills.toTouches.pool hr, pool_isoRlClock_of_ne p k y hr, hpool]
    · rw [hreads', ← hreads]
      exact reads_le_isoRlClock p k r' y

section

variable {p : Params} {k : Kernel} {s s' : TxState K D C}

omit [DecidableEq C] in
theorem isoRlClock_turn (r r' : RlId K D) (s : TxState K D C) :
    Turn p k r s (isoRlClock p k r' s) := by
  have hmeter : ∀ c, ((isoRlClock p k r' s).q r c).meter = (s.q r c).meter :=
    fun c => by rw [q_isoRlClock]
  by_cases hr : r = r'
  · subst hr
    exact turn_of_isoRlClock rfl rfl rfl rfl hmeter
  · exact .idle (pool_isoRlClock_of_ne p k s hr) hmeter (reads_le_isoRlClock p k r' s)

theorem isoRlBorrowTokens_turn (r r' : RlId K D) (c : C)
    (hlow : (s.q r' c).tokens < (s.q r' c).firstPktSize) :
    Turn p k r s (isoRlBorrowTokens p k r' c s).2 := by
  rcases isoRlBorrowTokens_cases p k r' c s with hfail | ⟨-, hb⟩
  · rw [hfail]
    exact .idle rfl (fun _ => rfl) le_rfl
  · by_cases hr : r = r'
    · subst hr
      refine .take c hlow hb.pool_self ?_ (fun c' hc => ?_) hb.reads.symm
      · rw [hb.self]
        rfl
      · rw [hb.other r c' fun hx => hc (Prod.mk.inj hx).2]
    · refine .idle (hb.pool_other r hr) (fun c' => ?_) hb.reads.ge
      rw [hb.other r c' fun hx => hr (Prod.mk.inj hx).1]

theorem peek_turn (r r' : RlId K D) (c : C) (pkt : Skb) (s : TxState K D C) :
    Turn p k r s (peek r' c pkt s) := by
  have hpool : (peek r' c pkt s).pool r = s.pool r := by
    rw [peek, TxState.pool_log, TxState.pool_modifyQ]
  by_cases hr : r = r'
  · subst hr
    refine .look c pkt ?_ hpool ?_ (fun c' hc => ?_) rfl
    · exact List.mem_append_right _ (List.mem_singleton_self _)
    · rw [q_peek_self]
      rfl
    · rw [q_peek_of_ne _ _ fun hx => hc (Prod.mk.inj hx).2]
  · refine .idle hpool (fun c' => ?_) le_rfl
    rw [q_peek_of_ne _ _ fun hx => hr (Prod.mk.inj hx).1]

/-- A packet that is sent is paid for by its limiter. -/
theorem forward_turn (r r' : RlId K D) (c : C) {pkt : Skb}
    (htokens : pkt.size ≤ (s.q r' c).tokens) (hforward : forward p k r' c pkt s = some s') :
    Turn p k r s s' := by
  unfold forward at hforward
  cases r' with
  | txc t =>
    obtain rfl := Option.some.inj hforward
    have hpool : ((charge (.txc t) c pkt.size ((skbDequeue (.txc t) c s).log (.xmit c pkt))).pool r)
        = s.pool r := by
      rw [charge, TxState.pool_modifyQ, TxState.pool_log, TxState.pool_log, skbDequeue,
        TxState.pool_modifyQ]
    by_cases hr : r = .txc t
    · subst hr
      refine .pay c pkt.size htokens hpool ?_ (fun c' hc => ?_) le_rfl
      · rw [TxState.q_modifyCb, q_charge_self, TxState.q_log, q_skbDequeue_self]
        rfl
      · have hne : (RlId.txc t, c') ≠ (RlId.txc (D := D) t, c) := fun hx => hc (Prod.mk.inj hx).2
        rw [TxState.q_modifyCb, q_charge_of_ne _ _ hne, TxState.q_log, q_skbDequeue_of_ne _ hne]
    · refine .idle hpool (fun c' => ?_) le_rfl
      have hne : (r, c') ≠ (.txc t, c) := fun hx => hr (Prod.mk.inj hx).1
      rw [TxState.q_modifyCb, q_charge_of_ne _ _ hne, TxState.q_log, q_skbDequeue_of_ne _ hne]
  | dest t d =>
    dsimp only at hforward
    split_ifs at hforward
    obtain rfl := Option.some.inj hforward
    have htouch := isoRlEnqueue_touches p k (.txc t) pkt c (skbDequeue (.dest t d) c s)
    have hreads : s.reads ≤
        (isoRlEnqueue p k (.txc t) pkt c (skbDequeue (.dest t d) c s)).2.reads := by
      rw [(isoRlEnqueue_fills ..).reads]
      exact reads_le_isoRlClock p k (.txc t) (skbDequeue (.dest t d) c s)
    have hpool : (skbDequeue (.dest t d) c s).pool r = s.pool r := TxState.pool_modifyQ ..
    have hpool' : (charge (.dest t d) c pkt.size
        (isoRlEnqueue p k (.txc t) pkt c (skbDequeue (.dest t d) c s)).2).pool r
        = (isoRlEnqueue p k (.txc t) pkt c (skbDequeue (.dest t d) c s)).2.pool r := by
      rw [charge, TxState.pool_modifyQ, TxState.pool_log]
    by_cases hr : r = .dest t d
    · subst hr
      have hother : ∀ c', (RlId.dest t d, c') ≠ (RlId.txc t, c) := fun _ => by simp
      refine .pay c pkt.size htokens ?_ ?_ (fun c' hc => ?_) hreads
      · rw [hpool', htouch.pool (by simp), hpool]
      · rw [q_charge_self, htouch.q (hother c), q_skbDequeue_self]
        rfl
      · have hne : (RlId.dest t d, c') ≠ (RlId.dest t d, c) := fun hx => hc (Prod.mk.inj hx).2
        rw [q_charge_of_ne _ _ hne, htouch.q (hother c'), q_skbDequeue_of_ne _ hne]
    · -- for another limiter it is the clock of the class-level limiter that counts
      have hne : ∀ c', (r, c') ≠ (.dest t d, c) := fun c' hx => hr (Prod.mk.inj hx).1
      refine isoRlEnqueue_turn p k r (.txc t) pkt c hpool rfl (fun c' => ?_) hpool' rfl
        (fun c' => ?_)
      · rw [q_skbDequeue_of_ne _ (hne c')]
      · rw [q_charge_of_ne _ _ (hne c')]

theorem Inner.turn (h : Inner p k s s') (r : RlId K D) : Turn p k r s s' := by
  cases h with
  | clock r' => exact isoRlClock_turn r r' s
  | borrow r' c hlow => exact isoRlBorrowTokens_turn r r' c hlow
  | peek r' c pkt rest hlist => exact peek_turn r r' c pkt s
  | forward _ r' c pkt rest hlist htokens hforward => exact forward_turn r r' c htokens hforward
  | schedule _ hrl hbytes htrace hreads =>
    refine .idle ?_ (fun c => ?_) hreads
    · rw [TxState.pool, hrl, TxState.pool]
    · rw [TxState.q, hrl, TxState.q]

/-- Every small step is a turn of every limiter. -/
theorem Small.turn (h : Small p k s s') (r : RlId K D) : Turn p k r s s' := by
  cases h with
  | inner h => exact h.turn r
  | enqueue t d c pkt =>
    exact isoRlEnqueue_turn p k r (.dest t d) pkt c rfl rfl (fun _ => rfl) rfl rfl (fun _ => rfl)

end

/-! ### The refill -/

/-- The cap of the pool at rate `R`. -/
def poolCap (p : Params) (R : ℕ) : ℕ := max ((R * p.isoMaxBurstTimeUs) >>> 3) p.isoMinBurstBytes

section

variable {p : Params} {now : ℕ} {l : Rl C}

section

omit [DecidableEq C]

/-- A refill brings no more tokens than the rate does in the time since the last one. -/
theorem refill_gain {R : ℕ} (hlast : l.lastUpdateTime ≤ now) (hrate : (refill p now l).rate ≤ R) :
    8000 * (refill p now l).totalTokens
      ≤ 8000 * l.totalTokens + R * (now - l.lastUpdateTime) := by
  have hus := u64OfInt_ktimeUsDelta_le hlast
  have htotal : (refill p now l).totalTokens
      ≤ l.totalTokens + u64 ((refill p now l).rate
        * u64OfInt (ktimeUsDelta now l.lastUpdateTime)) >>> 3 :=
    (min_le_right _ _).trans (u64_le _)
  rw [Nat.shiftRight_eq_div_pow] at htotal
  have hbits := u64_le ((refill p now l).rate * u64OfInt (ktimeUsDelta now l.lastUpdateTime))
  have hmul : (refill p now l).rate * u64OfInt (ktimeUsDelta now l.lastUpdateTime)
      ≤ R * ((now - l.lastUpdateTime) / 1000) := Nat.mul_le_mul hrate hus
  -- the rest of the microsecond is lost
  have hdiv : 1000 * (R * ((now - l.lastUpdateTime) / 1000)) ≤ R * (now - l.lastUpdateTime) := by
    rw [Nat.mul_left_comm]
    exact Nat.mul_le_mul_left R (Nat.mul_div_le _ _)
  omega

theorem refill_le_cap {R : ℕ} (hburst : R * p.isoMaxBurstTimeUs < 2 ^ 32)
    (hrate : (refill p now l).rate ≤ R) : (refill p now l).totalTokens ≤ poolCap p R := by
  have hmul := Nat.mul_le_mul_right p.isoMaxBurstTimeUs hrate
  have hcap : (refill p now l).totalTokens ≤ max
      (u32 ((refill p now l).rate * p.isoMaxBurstTimeUs) >>> 3) (u32 p.isoMinBurstBytes) :=
    min_le_left _ _
  rw [u32_of_lt (hmul.trans_lt hburst)] at hcap
  refine hcap.trans (max_le_max ?_ (u32_le _))
  rw [Nat.shiftRight_eq_div_pow, Nat.shiftRight_eq_div_pow]
  exact Nat.div_le_div_right hmul

/-- A refill lowers the rate or sets it to `2`, and never takes it below `2`. -/
theorem refill_rate : ((refill p now l).rate ≤ l.rate ∨ (refill p now l).rate = 2) ∧
    (2 ≤ l.rate → 2 ≤ (refill p now l).rate) := by
  unfold refill isoIdleRate
  dsimp only
  rw [Nat.shiftRight_eq_div_pow]
  split_ifs <;> omega

end

end

omit [DecidableEq K] [DecidableEq D] [DecidableEq C] in
theorem Turn.rate {p : Params} {k : Kernel} {r : RlId K D} {s s' : TxState K D C}
    (h : Turn p k r s s') : ((s'.pool r).rate ≤ (s.pool r).rate ∨ (s'.pool r).rate = 2) ∧
      (2 ≤ (s.pool r).rate → 2 ≤ (s'.pool r).rate) := by
  cases h with
  | idle hpool _ _ => rw [hpool]; exact ⟨Or.inl le_rfl, id⟩
  | refill hpool _ _ => rw [hpool]; exact refill_rate
  | take c _ hpool _ _ _ => rw [hpool]; exact ⟨Or.inl le_rfl, id⟩
  | look c pkt _ hpool _ _ _ => rw [hpool]; exact ⟨Or.inl le_rfl, id⟩
  | pay c n _ hpool _ _ _ => rw [hpool]; exact ⟨Or.inl le_rfl, id⟩

/-! ### Bounded rates -/

/-- A small step or a rate write between states in which the rate of `r` is at most `R`. -/
def Bounded (p : Params) (k : Kernel) (r : RlId K D) (R : ℕ) (s s' : TxState K D C) : Prop :=
  (Small p k s s' ∨ RateWrite s s') ∧ (s.pool r).rate ≤ R ∧ (s'.pool r).rate ≤ R

/-- Inside an operation the rate is not over the bound if it is not at both ends: once it is `2` it
is never below again. -/
theorem path_bounded {p : Params} {k : Kernel} {r : RlId K D} {R : ℕ} {s s' : TxState K D C}
    (hpath : IsPath (Small p k) s s') (hs : (s.pool r).rate ≤ R) (hs' : (s'.pool r).rate ≤ R) :
    IsPath (Bounded p k r R) s s' := by
  -- a rate that is set to 2 can be above `R` only if it is above `R` at the end as well
  have hend : ¬ (R < 2 ∧ 2 ≤ (s'.pool r).rate) := by omega
  refine (path_invariant_within (P := fun x => (x.pool r).rate ≤ R ∧ IsPath (Bounded p k r R) s x)
    (W := fun x => ¬ (R < 2 ∧ 2 ≤ (x.pool r).rate)) ?_ ?_ hpath hend ⟨hs, .refl⟩).2
  · intro x y hsmall hy hx
    exact hy ⟨hx.1, (hsmall.turn r).rate.2 hx.2⟩
  · rintro x y hsmall - hy ⟨hrate, hreach⟩
    have hrate' : (y.pool r).rate ≤ R := by
      rcases (hsmall.turn r).rate.1 with hle | htwo
      · exact hle.trans hrate
      · omega
    exact ⟨hrate', hreach.tail ⟨Or.inl hsmall, hrate, hrate'⟩⟩

/-! ### A limiter as a token pool -/

/-- The limiter `r` as a token pool with hoards. -/
def tokenPool (r : RlId K D) (s : TxState K D C) : TokenPool.Pool C where
  total := (s.pool r).totalTokens
  hoard c := (s.q r c).meter.tokens
  spent c := (s.q r c).meter.bytesXmit
  last := (s.pool r).lastUpdateTime

/-- Its terms, at rates up to `R` (in bits each microsecond) and with packets up to `L` bytes at the
head of a queue, while the clock (in nanoseconds) is between `start` and `stop`. -/
def terms (p : Params) (R L start stop : ℕ) : TokenPool.Terms :=
  ⟨R, 8000, poolCap p R, L, start, stop⟩

/-- What a turn of limiter `r` needs to know: its clock is not ahead, no packet found at the head of
a queue was over `L`, and the tokens of a queue are a `u64`. -/
structure Metered (k : Kernel) (r : RlId K D) (L : ℕ) (s : TxState K D C) : Prop where
  last : (s.pool r).lastUpdateTime ≤ k.ktime s.reads
  first : ∀ c, (s.q r c).meter.firstPktSize ≤ L
  tokens : ∀ c, (s.q r c).meter.tokens < 2 ^ 64

section

variable {p : Params} {k : Kernel} {r : RlId K D} {R L start stop : ℕ} {s s' : TxState K D C}

omit [DecidableEq K] [DecidableEq D] [DecidableEq C] in
theorem Turn.reads (h : Turn p k r s s') : s.reads ≤ s'.reads := by
  cases h <;> omega

section

omit [DecidableEq K] [DecidableEq D]

/-- Only the queue of CPU `c` has changed. -/
theorem Metered.update (hm : Metered k r L s) (c : C)
    (hlast : (s'.pool r).lastUpdateTime = (s.pool r).lastUpdateTime) (hreads : s.reads ≤ s'.reads)
    (hfirst : (s'.q r c).meter.firstPktSize ≤ L) (htokens : (s'.q r c).meter.tokens < 2 ^ 64)
    (hother : ∀ c', c' ≠ c → (s'.q r c').meter = (s.q r c').meter) : Metered k r L s' := by
  refine ⟨?_, fun c' => ?_, fun c' => ?_⟩
  · rw [hlast]
    exact hm.last.trans (k.ktime_mono hreads)
  · by_cases hc : c' = c
    · subst hc
      exact hfirst
    · rw [hother c' hc]
      exact hm.first c'
  · by_cases hc : c' = c
    · subst hc
      exact htokens
    · rw [hother c' hc]
      exact hm.tokens c'

theorem Turn.metered (h : Turn p k r s s') (hm : Metered k r L s)
    (hhead : ∀ c pkt, Event.head r c pkt ∈ s'.trace → pkt.size ≤ L) : Metered k r L s' := by
  cases h with
  | idle hpool hmeter hreads =>
    refine ⟨?_, fun c => ?_, fun c => ?_⟩
    · rw [hpool]
      exact hm.last.trans (k.ktime_mono hreads)
    · rw [hmeter]
      exact hm.first c
    · rw [hmeter]
      exact hm.tokens c
  | refill hpool hmeter hreads =>
    refine ⟨?_, fun c => ?_, fun c => ?_⟩
    · rw [hpool]
      exact k.ktime_mono (by omega)
    · rw [hmeter]
      exact hm.first c
    · rw [hmeter]
      exact hm.tokens c
  | take c hlow hpool hmeter hother hreads =>
    refine hm.update c (by rw [hpool]) hreads.le ?_ ?_ hother
    · rw [hmeter]
      exact hm.first c
    · rw [hmeter]
      exact Nat.mod_lt _ (by decide)
  | look c pkt hmem hpool hmeter hother hreads =>
    refine hm.update c (by rw [hpool]) hreads.le ?_ ?_ hother
    · rw [hmeter]
      exact hhead c pkt hmem
    · rw [hmeter]
      exact hm.tokens c
  | pay c n htokens hpool hmeter hother hreads =>
    refine hm.update c (by rw [hpool]) hreads ?_ ?_ hother
    · rw [hmeter]
      exact hm.first c
    · have hlt : (s.q r c).tokens < 2 ^ 64 := hm.tokens c
      rw [hmeter]
      show sub64 (s.q r c).tokens n < 2 ^ 64
      rw [sub64_of_le htokens hlt]
      omega

/-- A turn of a limiter is a step of its token pool. -/
theorem Turn.step (h : Turn p k r s s') (hm : Metered k r L s)
    (hburst : R * p.isoMaxBurstTimeUs < 2 ^ 32) (hrate : (s'.pool r).rate ≤ R)
    (htime : ∀ n, s.reads ≤ n → n < s'.reads → start ≤ k.ktime n ∧ k.ktime n ≤ stop) :
    TokenPool.Step (terms p R L start stop) (tokenPool r s) (tokenPool r s') := by
  cases h with
  | idle hpool hmeter hreads =>
    refine .idle ?_
    unfold tokenPool
    rw [hpool]
    simp only [hmeter]
  | refill hpool hmeter hreads =>
    -- the time of the refill is the second of its two readings
    obtain ⟨hstart, hstop⟩ := htime (s.reads + 1) (by omega) (by omega)
    have hlast : (s.pool r).lastUpdateTime ≤ k.ktime (s.reads + 1) :=
      hm.last.trans (k.ktime_mono (Nat.le_succ _))
    rw [hpool] at hrate
    have hlast' : (tokenPool r s').last = k.ktime (s.reads + 1) := by
      unfold tokenPool
      rw [hpool]
      rfl
    have htotal : (tokenPool r s').total
        = (Rl.refill p (k.ktime (s.reads + 1)) (s.pool r)).totalTokens := by
      unfold tokenPool
      rw [hpool]
    refine .refill (funext fun c => ?_) (funext fun c => ?_) ?_ ?_ ?_ ?_ ?_
    · exact congrArg Meter.tokens (hmeter c)
    · exact congrArg Meter.bytesXmit (hmeter c)
    · rw [htotal]
      exact refill_le_cap hburst hrate
    · rw [hlast']
      exact hlast
    · rw [hlast']
      exact hstart
    · rw [hlast']
      exact hstop
    · rw [htotal, hlast']
      exact refill_gain hlast hrate
  | take c hlow hpool hmeter hother hreads =>
    refine .take c ?_ ?_ ?_ (fun c' hc => ?_) (funext fun c' => ?_) ?_
    · exact hlow.le.trans (hm.first c)
    · unfold tokenPool
      rw [hpool]
    · show (s'.q r c).meter.tokens ≤ _
      rw [hmeter]
      exact u64_le _
    · exact congrArg Meter.tokens (hother c' hc)
    · by_cases hc : c' = c
      · subst hc
        show (s'.q r c').meter.bytesXmit = (s.q r c').meter.bytesXmit
        rw [hmeter]
      · exact congrArg Meter.bytesXmit (hother c' hc)
    · unfold tokenPool
      rw [hpool]
  | look c pkt hmem hpool hmeter hother hreads =>
    -- `first_pkt_size` is no part of the pool
    have hsame : ∀ c', (s'.q r c').meter.tokens = (s.q r c').meter.tokens ∧
        (s'.q r c').meter.bytesXmit = (s.q r c').meter.bytesXmit := by
      intro c'
      by_cases hc : c' = c
      · subst hc
        rw [hmeter]
        exact ⟨rfl, rfl⟩
      · rw [hother c' hc]
        exact ⟨rfl, rfl⟩
    refine .idle ?_
    unfold tokenPool
    rw [hpool]
    simp only [hsame]
  | pay c n htokens hpool hmeter hother hreads =>
    have hlt : (s.q r c).tokens < 2 ^ 64 := hm.tokens c
    refine .spend c n ?_ (fun c' hc => ?_) ?_ (fun c' hc => ?_) ?_ ?_
    · show (s'.q r c).meter.tokens + n = (s.q r c).tokens
      rw [hmeter]
      show sub64 (s.q r c).tokens n + n = _
      rw [sub64_of_le htokens hlt]
      omega
    · exact congrArg Meter.tokens (hother c' hc)
    · exact congrArg Meter.bytesXmit hmeter
    · exact congrArg Meter.bytesXmit (hother c' hc)
    · unfold tokenPool
      rw [hpool]
    · unfold tokenPool
      rw [hpool]

end

end

variable [Fintype C]

theorem step_bounded {p : Params} {k : Kernel} {r : RlId K D} {R : ℕ} (s : TxState K D C)
    (op : Op K D C) (hs : (s.pool r).rate ≤ R) (hs' : ((step p k s op).pool r).rate ≤ R) :
    IsPath (Bounded p k r R) s (step p k s op) := by
  rcases step_path (p := p) (k := k) s op with hpath | hwrite
  · exact path_bounded hpath hs hs'
  · exact .single ⟨Or.inr hwrite, hs, hs'⟩

/-- A run between whose operations the rate is bounded. -/
theorem run_bounded {p : Params} {k : Kernel} {r : RlId K D} {R : ℕ} (s : TxState K D C)
    (ops : List (Op K D C))
    (hR : ∀ ops', ops' <+: ops → ((run (step p k) s ops').pool r).rate ≤ R) :
    IsPath (Bounded p k r R) s (run (step p k) s ops) := by
  induction ops generalizing s with
  | nil => exact .refl
  | cons op ops ih =>
    have hhead : ((step p k s op).pool r).rate ≤ R :=
      hR [op] (List.prefix_cons_inj op |>.mpr (List.nil_prefix))
    refine (step_bounded s op (hR [] List.nil_prefix) hhead).trans (ih _ fun ops' hpre => ?_)
    exact hR (op :: ops') ((List.prefix_cons_inj op).mpr hpre)

/-! ### Conformance -/

section

variable {p : Params} {k : Kernel} {r : RlId K D} {R L : ℕ} {s s' : TxState K D C}

omit [DecidableEq C] [Fintype C] in
theorem RateWrite.rl (h : RateWrite s s') (r : RlId K D) :
    (∀ c, s'.q r c = s.q r c) ∧ (s'.pool r).totalTokens = (s.pool r).totalTokens ∧
      (s'.pool r).lastUpdateTime = (s.pool r).lastUpdateTime := by
  obtain ⟨r', rate, time, hrl, -, -, -⟩ := h
  unfold TxState.q TxState.pool
  rw [hrl]
  by_cases hr : r = r'
  · subst hr
    rw [TxState.rl_modifyRl_self]
    exact ⟨fun _ => rfl, rfl, rfl⟩
  · rw [TxState.rl_modifyRl_of_ne _ _ hr]
    exact ⟨fun _ => rfl, rfl, rfl⟩

section

omit [Fintype C]

theorem Inner.trace (h : Inner p k s s') : s.trace ⊆ s'.trace := by
  cases h with
  | clock r =>
    rw [trace_isoRlClock]
    exact List.Subset.refl _
  | borrow r c hlow =>
    rcases isoRlBorrowTokens_cases p k r c s with hfail | ⟨-, hb⟩
    · rw [hfail]
      exact List.Subset.refl _
    · rw [hb.trace]
      exact List.Subset.refl _
  | peek r c pkt rest hlist => exact List.subset_append_left _ _
  | forward _ r c pkt rest hlist htokens hforward =>
    unfold Rl.forward at hforward
    cases r with
    | txc t =>
      obtain rfl := Option.some.inj hforward
      exact List.Subset.trans (List.subset_append_left _ _) (List.subset_append_left _ _)
    | dest t d =>
      dsimp only at hforward
      split_ifs at hforward
      obtain rfl := Option.some.inj hforward
      have htouch := isoRlEnqueue_touches p k (.txc t) pkt c (skbDequeue (.dest t d) c s)
      exact List.Subset.trans htouch.trace (List.subset_append_left _ _)
  | schedule _ hrl hbytes htrace hreads =>
    rw [htrace]
    exact List.Subset.refl _

theorem Small.trace (h : Small p k s s') : s.trace ⊆ s'.trace := by
  cases h with
  | inner h => exact h.trace
  | enqueue t d c pkt => exact (isoRlEnqueue_touches ..).trace

theorem Bounded.grows (h : Bounded p k r R s s') : s.trace ⊆ s'.trace ∧ s.reads ≤ s'.reads := by
  rcases h.1 with hsmall | ⟨_, _, _, -, -, htrace, hreads⟩
  · exact ⟨hsmall.trace, (hsmall.turn r).reads⟩
  · rw [htrace]
    exact ⟨List.Subset.refl _, hreads⟩

/-- Along a path with bounded rates, on which the clock reads between `start` and `stop`, the
limiter goes through steps of its token pool. -/
theorem path_tokenPool (start stop : ℕ) (hburst : R * p.isoMaxBurstTimeUs < 2 ^ 32)
    (hpath : IsPath (Bounded p k r R) s s') (hm : Metered k r L s)
    (hhead : ∀ c pkt, Event.head r c pkt ∈ s'.trace → pkt.size ≤ L)
    (htime : ∀ n, s.reads ≤ n → n < s'.reads → start ≤ k.ktime n ∧ k.ktime n ≤ stop) :
    Metered k r L s' ∧ IsPath (TokenPool.Step (terms p R L start stop)) (tokenPool r s)
      (tokenPool r s') := by
  -- the bounds on heads and readings are known at the end, and go back along the path
  refine (path_invariant_within
    (P := fun x => s.reads ≤ x.reads ∧ Metered k r L x ∧
      IsPath (TokenPool.Step (terms p R L start stop)) (tokenPool r s) (tokenPool r x))
    (W := fun x => (∀ c pkt, Event.head r c pkt ∈ x.trace → pkt.size ≤ L) ∧ x.reads ≤ s'.reads)
    ?_ ?_ hpath ⟨hhead, le_rfl⟩ ⟨le_rfl, hm, .refl⟩).2
  · rintro x y hstep ⟨hhead, hreads⟩
    obtain ⟨htrace, hle⟩ := hstep.grows
    exact ⟨fun c pkt hmem => hhead c pkt (htrace hmem), hle.trans hreads⟩
  · rintro x y hstep - ⟨hhead, hreads⟩ ⟨hs, hm, hreach⟩
    obtain ⟨-, hle⟩ := hstep.grows
    obtain ⟨hsmall | hwrite, -, hrate⟩ := hstep
    · have hturn := hsmall.turn r
      refine ⟨hs.trans hle, hturn.metered hm hhead, hreach.tail ?_⟩
      exact hturn.step hm hburst hrate fun n hn hn' =>
        htime n (hs.trans hn) (hn'.trans_le hreads)
    · -- a rate write is not seen by the pool
      obtain ⟨hq, htotal, hlast⟩ := hwrite.rl r
      have hsame : tokenPool r y = tokenPool r x := by
        unfold tokenPool
        rw [htotal, hlast]
        simp only [hq]
      refine ⟨hs.trans hle, ⟨?_, ?_, ?_⟩, ?_⟩
      · rw [hlast]
        exact hm.last.trans (k.ktime_mono hle)
      · simp only [hq]
        exact hm.first
      · simp only [hq]
        exact hm.tokens
      · rw [hsame]
        exact hreach

end

end

omit [DecidableEq K] [DecidableEq D] [DecidableEq C] [Fintype C] in
/-- A limiter that has just been set up. -/
theorem init_metered (p : Params) (k : Kernel) {t : RlId K D → ℕ} (r : RlId K D) (L : ℕ)
    (ht : t r ≤ k.ktime 0) : Metered k r L (TxState.init p t : TxState K D C) :=
  ⟨ht, fun _ => Nat.zero_le _, fun _ => Nat.two_pow_pos 64⟩

omit [DecidableEq K] [DecidableEq D] [DecidableEq C] [Fintype C] in
theorem init_stocked (p : Params) (t : RlId K D → ℕ) (r : RlId K D) (R L start stop : ℕ)
    (hmin : 15000 ≤ p.isoMinBurstBytes) :
    TokenPool.Stocked (terms p R L start stop) (tokenPool r (TxState.init p t : TxState K D C)) :=
  ⟨hmin.trans (le_max_right _ _), fun _ => Nat.zero_le _⟩

/-- **Token-bucket conformance.**  In a run `pre ++ win`, let `R` bound the rate of limiter `r` and
`L` the packets found at the head of its queues, and let the clock read between `s` and `e`
microseconds during `win`.  Then the queues of the limiter send at most `R * (e - s) / 8` bytes
during `win`, plus a constant: `n + 2` times the cap of the pool and `n` packets, for `n` CPUs. -/
theorem runFrom_conformance (p : Params) (k : Kernel) (t : RlId K D → ℕ) (r : RlId K D)
    (R L s e : ℕ) (pre win : List (Op K D C)) (hburst : R * p.isoMaxBurstTimeUs < 2 ^ 32)
    (hmin : 15000 ≤ p.isoMinBurstBytes) (ht : t r ≤ k.ktime 0)
    (hR : ∀ ops, ops <+: pre ++ win → ((runFrom p k t ops).rl r).rate ≤ R)
    (hL : ∀ c skb, Event.head r c skb ∈ (runFrom p k t (pre ++ win)).trace → skb.size ≤ L)
    (htime : ∀ n, (runFrom p k t pre).reads ≤ n → n < (runFrom p k t (pre ++ win)).reads →
      s * 1000 ≤ k.ktime n ∧ k.ktime n ≤ e * 1000) :
    ∑ c, ((runFrom p k t (pre ++ win)).q r c).bytesXmit
      ≤ ∑ c, ((runFrom p k t pre).q r c).bytesXmit + (R * (e - s)) / 8
        + (Fintype.card C + 2) * max ((R * p.isoMaxBurstTimeUs) >>> 3) p.isoMinBurstBytes
        + Fintype.card C * L := by
  have hbefore : IsPath (Bounded p k r R) (TxState.init p t) (runFrom p k t pre) :=
    run_bounded _ _ fun ops hops => hR ops (hops.trans (List.prefix_append _ _))
  have hduring : IsPath (Bounded p k r R) (runFrom p k t pre) (runFrom p k t (pre ++ win)) := by
    unfold runFrom
    rw [run_append]
    refine run_bounded _ _ fun ops hops => ?_
    rw [← run_append]
    exact hR (pre ++ ops) ((List.prefix_append_right_inj pre).mpr hops)
  have hold : (runFrom p k t pre).trace ⊆ (runFrom p k t (pre ++ win)).trace :=
    path_invariant (P := fun x => (runFrom p k t pre).trace ⊆ x.trace)
      (fun _ _ hstep hsub => List.Subset.trans hsub hstep.grows.1) hduring (List.Subset.refl _)
  -- before the window, any times will do
  obtain ⟨hm, hpath₀⟩ := path_tokenPool 0 (k.ktime (runFrom p k t pre).reads)
    hburst hbefore (init_metered p k r L ht) (fun c pkt hmem => hL c pkt (hold hmem))
    (fun n _ hn => ⟨Nat.zero_le _, k.ktime_mono hn.le⟩)
  have hstocked := TokenPool.stocked_path hpath₀ (init_stocked p t r R L _ _ hmin)
  obtain ⟨-, hpath⟩ := path_tokenPool (s * 1000) (e * 1000) hburst hduring hm hL htime
  have hspent := TokenPool.spent_le (T := terms p R L (s * 1000) (e * 1000))
    (show 0 < 8000 by decide) hpath hstocked
  -- nanoseconds and bits there, microseconds and bytes here
  have hunits : R * (e * 1000 - s * 1000) / 8000 = R * (e - s) / 8 := by
    rw [← Nat.sub_mul, ← Nat.mul_assoc]
    exact Nat.mul_div_mul_right _ 8 (by decide)
  rw [← hunits]
  exact hspent

/-- The packet of `onePacket` is sent on. -/
def departure : List (Op Unit Unit Unit) := [.dequeue (.dest () ()) ()]

theorem runFrom_conformance_departure :
    ((runFrom {} Kernel.steady (fun _ => 0) (onePacket ++ departure)).q (.dest () ()) ()).bytesXmit
      = 1014 ∧
    ∑ c, ((runFrom {} Kernel.steady (fun _ => 0) (onePacket ++ departure)).q
      (.dest () ()) c).bytesXmit
      ≤ ∑ c, ((runFrom {} Kernel.steady (fun _ => 0) onePacket).q (.dest () ()) c).bytesXmit
        + (5000 * (1000 - 0)) / 8 + (Fintype.card Unit + 2) * max ((5000 * 150) >>> 3) 65536
        + Fintype.card Unit * 1014 := by
  have hR : ∀ ops ∈ (onePacket ++ departure).inits,
      ((runFrom {} Kernel.steady (fun _ => 0) ops).rl (.dest () ())).rate ≤ 5000 := by
    decide +kernel
  have hL : ∀ ev ∈ (runFrom {} Kernel.steady (fun _ => 0) (onePacket ++ departure)).trace,
      (match ev with | .head _ _ skb => skb.size | _ => 0) ≤ 1014 := by
    decide +kernel
  have hreads : (runFrom {} Kernel.steady (fun _ => 0) (onePacket ++ departure)).reads ≤ 10 := by
    decide +kernel
  refine ⟨by decide +kernel, runFrom_conformance {} Kernel.steady (fun _ => 0)
    (.dest () ()) 5000 1014 0 1000 onePacket departure (by decide) (by decide) (by decide)
    (fun ops hops => ?_) (fun _ _ hmem => hL _ hmem) (fun n _ hn => ⟨Nat.zero_le _, ?_⟩)⟩
  · exact hR ops ((List.mem_inits _ _).mpr hops)
  · show n * 100000 ≤ 1000 * 1000
    omega

end EyeQ.Rl
