import EyeQ.Klist.Cursor
import EyeQ.Machine.Run
import EyeQ.Rl.Limiter

/-!
# The tasklet, the timer, and runs of a context

`isoRlXmitTasklet` walks the active list of a control block while `iso_rl_dequeue` appends to it,
so it keeps the two cursors of `list_for_each_entry_safe` (`Klist.next`).  The walk ends after
`budget` counts at the latest; `taskletFuel` rounds are enough (`taskletLoop_of_le`).

`Op` is everything that happens to the limiters of a context, each operation atomic, and `step`
what it does.  `Op.tx` is the part of `iso_tx` behind the lookups: the packet is made ECN capable,
enqueued in its destination's limiter, and that limiter is dequeued.
-/

namespace EyeQ.Rl

variable {K D C : Type} [DecidableEq K] [DecidableEq D] [DecidableEq C] [Fintype C]

/-! ### The tasklet -/

/-- The limit on `count` in `iso_rl_xmit_tasklet`. -/
def budget : ℕ := 500

/-- Each round counts twice. -/
def taskletFuel : ℕ := budget / 2 + 1

/-- `list_del_init(&q->active_list)` for an entry of the list of CPU `c`. -/
def listDelInit (c : C) (x : RlId K D × C) (s : TxState K D C) : TxState K D C :=
  s.modifyCb c fun cb => { cb with activeList := cb.activeList.erase x }

/-- The loop of `iso_rl_xmit_tasklet` on CPU `c`, with cursor `pos` and look-ahead cursor `tmp`. -/
def taskletLoop (p : Params) (k : Kernel) (c : C) (first : Option (RlId K D × C)) :
    ℕ → Option (RlId K D × C) → Option (RlId K D × C) → ℕ → ℕ → TxState K D C → TxState K D C
  | 0, _, _, _, _, s => s
  | _ + 1, none, _, _, _, s => s
  | fuel + 1, some x, tmp, count, sent, s =>
    -- `count` is incremented before the test and once more in it
    if tmp = first ∨ count + 1 > budget ∨ sent > 2 * p.isoMinBurstBytes then s
    else
      let s := isoRlClock p k x.1 (listDelInit c x s)
      let (n, s) := isoRlDequeue p k x.1 x.2 s
      -- `tmp` was read before the dequeue, and its successor is read after it
      taskletLoop p k c first fuel tmp (Klist.next (s.cb c).activeList tmp) (count + 2)
        (u32 (sent + n)) s

/-- The loop, from the first entry of the list. -/
def taskletWalk (p : Params) (k : Kernel) (c : C) (s : TxState K D C) : TxState K D C :=
  let first := (s.cb c).activeList.head?
  taskletLoop p k c first taskletFuel first (Klist.next (s.cb c).activeList first) 0 0 s

/-- `iso_rl_xmit_tasklet` on CPU `c`, which is no longer scheduled once it runs.  The clock is read
once, for statistics. -/
def isoRlXmitTasklet (p : Params) (k : Kernel) (c : C) (s : TxState K D C) : TxState K D C :=
  let s := s.modifyCb c fun cb => { cb with xmitTimeout := false }
  if p.isoExiting then s
  else
    let s := taskletWalk p k c s.read
    if (s.cb c).activeList = [] then s
    else s.modifyCb c fun cb => { cb with timer := true }

/-- The timer of CPU `c` expires, if it is armed, and `iso_rl_timeout` schedules the tasklet. -/
def isoRlTimeout (c : C) (s : TxState K D C) : TxState K D C :=
  if (s.cb c).timer then s.modifyCb c fun cb => { cb with timer := false, xmitTimeout := true }
  else s

/-! ### Operations -/

inductive Op (K D C : Type) where
  /-- `iso_tx` of a packet of class `t` to destination `d`. -/
  | tx (t : K) (d : D) (c : C) (skb : Skb)
  /-- `iso_rl_enqueue` in a destination's limiter, with nothing dequeued after it. -/
  | enqueue (t : K) (d : D) (c : C) (skb : Skb)
  | dequeue (r : RlId K D) (c : C)
  /-- `iso_rl_borrow_tokens`, as `iso_rl_dequeue` calls it, and nobody else: for a queue that lacks
  the tokens for its first packet. -/
  | borrow (r : RlId K D) (c : C)
  | clock (r : RlId K D)
  /-- `iso_rx` installs a rate fed back by the destination. -/
  | feedback (t : K) (d : D) (rate : ℕ)
  /-- `iso_txc_tick` or `iso_txc_recompute_rates` sets the rate of a class. -/
  | classRate (t : K) (rate : ℕ)
  | timeout (c : C)
  | tasklet (c : C)

/-- What an operation does. -/
def step (p : Params) (k : Kernel) (s : TxState K D C) : Op K D C → TxState K D C
  | .tx t d c skb =>
    let s := (isoRlEnqueue p k (.dest t d) skb.isoEnableEcn c s).2
    (isoRlDequeue p k (.dest t d) c s).2
  | .enqueue t d c skb => (isoRlEnqueue p k (.dest t d) skb c s).2
  | .dequeue r c => (isoRlDequeue p k r c s).2
  | .borrow r c =>
    if (s.q r c).tokens < (s.q r c).firstPktSize then (isoRlBorrowTokens p k r c s).2 else s
  | .clock r => isoRlClock p k r s
  | .feedback t d rate =>
    (s.modifyRl (.dest t d) fun l =>
      { l with rate := u32 rate, lastRateUpdateTime := k.ktime s.reads }).read
  | .classRate t rate => s.modifyRl (.txc t) fun l => { l with rate := u32 rate }
  | .timeout c => isoRlTimeout c s
  | .tasklet c => isoRlXmitTasklet p k c s

/-- The state after the operations `ops`, from a context set up at the times `t`. -/
def runFrom (p : Params) (k : Kernel) (t : RlId K D → ℕ) (ops : List (Op K D C)) :
    TxState K D C :=
  Machine.run (step p k) (TxState.init p t) ops

/-- One packet is sent to one destination, on one CPU. -/
def onePacket : List (Op Unit Unit Unit) := [.tx () () () (.datagram 1 1000 1 2 6 0 0)]

/-! ### The fuel of the tasklet -/

/-- The tasklet stops at its budget, so more than `taskletFuel` rounds change nothing. -/
theorem taskletLoop_of_le (p : Params) (k : Kernel) (c : C) (first : Option (RlId K D × C)) :
    ∀ (fuel extra : ℕ) (pos tmp : Option (RlId K D × C)) (count sent : ℕ) (s : TxState K D C),
      budget < count + 2 * fuel →
      taskletLoop p k c first (fuel + extra) pos tmp count sent s
        = taskletLoop p k c first fuel pos tmp count sent s := by
  intro fuel
  induction fuel with
  | zero =>
    intro extra pos tmp count sent s hfuel
    cases extra with
    | zero => rfl
    | succ extra =>
      cases pos with
      | none => rfl
      | some x =>
        -- no fuel is left only when the budget is spent
        have hstop : tmp = first ∨ count + 1 > budget ∨ sent > 2 * p.isoMinBurstBytes :=
          Or.inr (Or.inl (by omega))
        simp only [taskletLoop, hstop, ↓reduceIte]
  | succ fuel ih =>
    intro extra pos tmp count sent s hfuel
    rw [Nat.succ_add]
    cases pos with
    | none => rfl
    | some x =>
      simp only [taskletLoop]
      split_ifs
      · rfl
      · exact ih _ _ _ _ _ _ (by omega)

end EyeQ.Rl
