import EyeQ.Rl.Basic

/-!
# The functions of `rl.c`

Each definition is the source function of its name, from a state to a state.  A `goto` is an early
return.  The `while` loop of `iso_rl_dequeue` is `dequeueLoop`, a recursion on the packets of the
queue: each round peeks at the next packet, and either sends it and goes on, or stops.
`iso_rl_dequeue` calls itself once, for the class-level limiter of a destination, so it is
`dequeueWith` applied to that call.
-/

namespace EyeQ.Rl

variable {K D C : Type}

/-! ### Refilling the pool -/

/-- The body of `iso_rl_clock`, at time `now`, once the limiter is due. -/
def refill (p : Params) (now : ℕ) (l : Rl C) : Rl C :=
  -- a limiter that was idle for long starts again at `ISO_IDLE_RATE`
  let us := u64OfInt (ktimeUsDelta now l.lastUpdateTime)
  let rate := if us > isoIdleTimeoutUs ∧ l.rate > isoIdleRate then isoIdleRate else l.rate
  -- without feedback, the rate is halved
  let us2 := u64OfInt (ktimeUsDelta now l.lastRateUpdateTime)
  let timedOut := us2 > p.isoRfairFeedbackTimeoutUs
  let rate := if timedOut then max 2 (rate >>> 1) else rate
  let total := u64 (l.totalTokens + u64 (rate * us) >>> 3)
  -- unlike the product above, this one is computed in 32 bits
  let cap := max (u32 (rate * p.isoMaxBurstTimeUs) >>> 3) (u32 p.isoMinBurstBytes)
  { l with
    rate := rate
    lastRateUpdateTime := if timedOut then now else l.lastRateUpdateTime
    totalTokens := min cap total
    lastUpdateTime := now }

variable [DecidableEq K] [DecidableEq D] [DecidableEq C]

/-- `iso_rl_clock`.  The clock is read once for `iso_rl_should_refill` and, when the limiter is
due, once more. -/
def isoRlClock (p : Params) (k : Kernel) (r : RlId K D) (s : TxState K D C) : TxState K D C :=
  if ktimeUsDelta (k.ktime s.reads) (s.rl r).lastUpdateTime > p.isoRlUpdateIntervalUs then
    (s.read.modifyRl r (refill p (k.ktime s.read.reads))).read
  else s.read

/-! ### Enqueueing -/

/-- `MIN_PKT_SIZE`. -/
def minPktSize : ℤ := 600

/-- `__skb_queue_tail`, with the byte count of the queue. -/
def queueTail (r : RlId K D) (c : C) (skb : Skb) (s : TxState K D C) : TxState K D C :=
  s.modifyQ r c fun q =>
    { q with list := q.list ++ [skb], bytesEnqueued := u64 (q.bytesEnqueued + skb.size) }

/-- Append a packet whole.  A class-level queue above the marking threshold marks it. -/
def appendWhole (p : Params) (r : RlId K D) (c : C) (pkt : Skb) (s : TxState K D C) :
    TxState K D C :=
  let bytes := u64 ((s.q r c).bytesEnqueued + pkt.size)
  match r with
  | .txc _ =>
    if bytes > p.isoTxMarkThresh ∧ pkt.isIp then queueTail r c (pkt.changeDsfield 0 0x3) s
    else queueTail r c pkt s
  | .dest _ _ => queueTail r c pkt s

/-- Append a segment, or free it when the queue is full. -/
def appendSegment (p : Params) (r : RlId K D) (c : C) (s : TxState K D C) (skb : Skb) :
    TxState K D C :=
  if (s.q r c).bytesEnqueued < p.isoMaxQueueLenBytes then queueTail r c skb s
  else s.log (.kfree .noRoom skb)

/-- `iso_rl_enqueue`. -/
def isoRlEnqueue (p : Params) (k : Kernel) (r : RlId K D) (pkt : Skb) (c : C)
    (s : TxState K D C) : IsoVerdict × TxState K D C :=
  let s := isoRlClock p k r s
  let bytes := (s.q r c).bytesEnqueued
  let len := pkt.size
  if (s.rl r).rate > p.isoGsoThreshRate ∨ len ≤ p.isoGsoMinSplitBytes then
    if u64 (bytes + len) > p.isoMaxQueueLenBytes then
      -- `diff` is how far the packet overshoots, so the second test holds whenever the first does
      -- not
      let diff := s32 (s32 (s32 bytes + len) - p.isoMaxQueueLenBytes)
      if diff > len ∨ s32 (diff - len) < minPktSize then (.drop, s)
      else
        let s := (s.log (.accept r c pkt)).log (.trim r c pkt)
        -- `skb_trim` takes an `unsigned int`
        (.success, appendWhole p r c (pkt.trim (u32OfInt diff)) s)
    else (.success, appendWhole p r c pkt (s.log (.accept r c pkt)))
  else
    -- the rate is small: each segment finds room or is freed by itself
    match k.skbGsoSegment pkt with
    | none => (.error, s.log (.gsoSegment r c pkt none))
    | some segs =>
      let s := (s.log (.accept r c pkt)).log (.gsoSegment r c pkt (some segs))
      (.success, segs.foldl (appendSegment p r c) (s.log (.kfree .segmented pkt)))

/-- `iso_rl_has_space_for`. -/
def isoRlHasSpaceFor (p : Params) (r : RlId K D) (pkt : Skb) (c : C) (s : TxState K D C) : Bool :=
  u64 ((s.q r c).bytesEnqueued + pkt.size) < p.isoMaxQueueLenBytes

/-! ### Dequeueing -/

/-- `iso_rl_borrow_tokens`.  The first result is `timeout`.  The first value of `borrow`, from
`iso_rl_singleq_burst`, is overwritten before it is used: a queue takes the whole pool. -/
def isoRlBorrowTokens (p : Params) (k : Kernel) (r : RlId K D) (c : C) (s : TxState K D C) :
    Bool × TxState K D C :=
  if k.trylock s.tries then
    let borrow := (s.rl r).totalTokens
    let (timeout, s) :=
      if (s.rl r).totalTokens ≥ borrow then
        let s := s.tryLock.modifyRl r fun l => { l with totalTokens := sub64 l.totalTokens borrow }
        (false, s.modifyQ r c fun q => { q with tokens := u64 (q.tokens + borrow) })
      else (true, s.tryLock)
    (if p.isoExiting then false else timeout, s)
  else (true, s.tryLock)

/-- `first_pkt_size = skb_size(skb_peek(skq))`. -/
def peek (r : RlId K D) (c : C) (pkt : Skb) (s : TxState K D C) : TxState K D C :=
  (s.modifyQ r c fun q => { q with firstPktSize := pkt.size }).log (.head r c pkt)

/-- `__skb_dequeue`. -/
def skbDequeue (r : RlId K D) (c : C) (s : TxState K D C) : TxState K D C :=
  s.modifyQ r c fun q => { q with list := q.list.tail }

/-- Charge the queue for a packet that has left it. -/
def charge (r : RlId K D) (c : C) (size : ℕ) (s : TxState K D C) : TxState K D C :=
  (s.log (.charge r c size (s.q r c).tokens (s.q r c).bytesEnqueued)).modifyQ r c fun q =>
    { q with
      tokens := sub64 q.tokens size
      bytesEnqueued := sub64 q.bytesEnqueued size
      bytesXmit := q.bytesXmit + size }

/-- Send the packet at the head of the queue: to the device from a class-level queue, to the
class-level queue of the same CPU from a destination's.  `none` when that queue has no room.  The
verdict of `iso_rl_enqueue` is not looked at. -/
def forward (p : Params) (k : Kernel) (r : RlId K D) (c : C) (pkt : Skb) (s : TxState K D C) :
    Option (TxState K D C) :=
  match r with
  | .txc _ =>
    let s := charge r c pkt.size ((skbDequeue r c s).log (.xmit c pkt))
    some (s.modifyCb c fun cb => { cb with txBytes := cb.txBytes + pkt.size })
  | .dest t _ =>
    if isoRlHasSpaceFor p (.txc t) pkt c s then
      some (charge r c pkt.size (isoRlEnqueue p k (.txc t) pkt c (skbDequeue r c s)).2)
    else none

/-- The `while` loop of `iso_rl_dequeue` over the packets `pkts` of the queue: `(timeout, sum)` and
the state.  `timeout` is `0` only when the queue has been drained. -/
def dequeueLoop (p : Params) (k : Kernel) (r : RlId K D) (c : C) :
    List Skb → ℕ → TxState K D C → (Bool × ℕ) × TxState K D C
  | [], sum, s => ((false, sum), s)
  | pkt :: rest, sum, s =>
    let s := peek r c pkt s
    -- `sum` has the size of this packet in it when it is compared
    let sum := sum + pkt.size
    if pkt.size ≤ (s.q r c).tokens ∧ sum ≤ p.isoMinBurstBytes * 2 then
      match forward p k r c pkt s with
      | some s => dequeueLoop p k r c rest sum s
      | none => ((true, sum), s)
    else ((true, sum), s)

variable [Fintype C]

/-- `list_add_tail(&q->active_list, &cb->active_list)`, unless the queue is linked already. -/
def linkActive (r : RlId K D) (c : C) (s : TxState K D C) : TxState K D C :=
  if s.Linked (r, c) then s
  else s.modifyCb c fun cb => { cb with activeList := cb.activeList ++ [(r, c)] }

/-- `hrtimer_start(&cb->timer)`, unless the timer is active. -/
def startTimer (c : C) (s : TxState K D C) : TxState K D C :=
  if (s.cb c).timer then s else s.modifyCb c fun cb => { cb with timer := true }

/-- The label `timeout` of `iso_rl_dequeue`: wait for the timer of the queue's CPU. -/
def waitForTimer (r : RlId K D) (c : C) (s : TxState K D C) : TxState K D C :=
  startTimer c (linkActive r c s)

/-- `iso_rl_dequeue`, given what it does at the label `unlock`. -/
def dequeueWith (unlock : TxState K D C → TxState K D C) (p : Params) (k : Kernel) (r : RlId K D)
    (c : C) (s : TxState K D C) : ℕ × TxState K D C :=
  let (timeout, s) :=
    if (s.q r c).tokens < (s.q r c).firstPktSize then isoRlBorrowTokens p k r c s else (false, s)
  -- a queue without tokens goes to the label `timeout`, past the loop and past `unlock`
  if timeout then (0, if p.isoExiting then s else waitForTimer r c s)
  else
    let ((timeout, sum), s) := dequeueLoop p k r c (s.q r c).list 0 s
    let s := unlock s
    (u32 sum, if timeout ∧ ¬ p.isoExiting then waitForTimer r c s else s)

/-- `iso_rl_dequeue`. -/
def isoRlDequeue (p : Params) (k : Kernel) : RlId K D → C → TxState K D C → ℕ × TxState K D C
  | .txc t, c, s => dequeueWith id p k (.txc t) c s
  | .dest t d, c, s => dequeueWith (fun s => (dequeueWith id p k (.txc t) c s).2)
      p k (.dest t d) c s

/-! ### The queue that is worked on -/

section Queue

variable (r : RlId K D) (c : C) (pkt : Skb) (n : ℕ) (s : TxState K D C)

omit [Fintype C]

@[simp] theorem q_peek_self :
    (peek r c pkt s).q r c = { s.q r c with firstPktSize := pkt.size } := by
  rw [peek, TxState.q_log, TxState.q_modifyQ_self]

@[simp] theorem q_skbDequeue_self :
    (skbDequeue r c s).q r c = { s.q r c with list := (s.q r c).list.tail } := by
  rw [skbDequeue, TxState.q_modifyQ_self]

@[simp] theorem q_charge_self :
    (charge r c n s).q r c = { s.q r c with
      tokens := sub64 (s.q r c).tokens n
      bytesEnqueued := sub64 (s.q r c).bytesEnqueued n
      bytesXmit := (s.q r c).bytesXmit + n } := by
  rw [charge, TxState.q_modifyQ_self, TxState.q_log]

variable {r c} {r' : RlId K D} {c' : C} (hne : (r', c') ≠ (r, c))

include hne

theorem q_peek_of_ne : (peek r c pkt s).q r' c' = s.q r' c' := by
  rw [peek, TxState.q_log, TxState.q_modifyQ_of_ne _ _ hne]

theorem q_skbDequeue_of_ne : (skbDequeue r c s).q r' c' = s.q r' c' :=
  TxState.q_modifyQ_of_ne _ _ hne

theorem q_charge_of_ne : (charge r c n s).q r' c' = s.q r' c' := by
  rw [charge, TxState.q_modifyQ_of_ne _ _ hne, TxState.q_log]

end Queue

end EyeQ.Rl
