import EyeQ.Host.Rx

/-!
# The rate controller of `rc.c`

`Rc` is `struct iso_rc_state`: a rate `rfair` that is cut when a packet is marked and climbs back
when packets are not.  After a cut the controller is in fast recovery, where each step goes half of
the way to the rate before the cut (`rfair_target`); after five such steps it adds
`ISO_RFAIR_INCREMENT` at a time.

`isoRcRx` is `iso_rc_rx` on a CPU that nothing interrupts.  The code does not run that way: it
compares the time without the lock, takes the lock if it is free, compares again with the reading it
has, and writes the time of the change when the lock is free again.  In `Rc.State` each CPU makes
the three parts (`arrive`, `locked` and `changed`) as steps of their own, between which the others
may do anything.  Under the lock the time of the last change is read once and not written, so that a
`changed` of another CPU in the middle of `locked` is one before or after it.

No other function calls `iso_rc_rx`: `iso_rx` installs the rate of a feedback packet itself.

`Rc.State.log` is a history variable: the changes made to the rate.
-/

namespace EyeQ

/-- `ISO_RFAIR_INCREMENT`, which no sysctl sets. -/
def isoRfairIncrement : ℕ := 10

/-- `ISO_RFAIR_INCREASE_INTERVAL_US`, which no sysctl sets. -/
def isoRfairIncreaseIntervalUs : ℕ := 120

/-- `enum iso_rc`. -/
inductive RcPhase where
  | fastRecovery
  | ai
deriving DecidableEq

/-- `struct iso_rc_stats`. -/
structure RcStats where
  numMarked : ℕ := 0
  numRx : ℕ := 0

/-- `struct iso_rc_state`. -/
structure Rc (C : Type) where
  rfair : ℕ
  rfairTarget : ℕ
  state : RcPhase
  alpha : ℕ
  count : ℕ
  stats : C → RcStats
  lastRfairChangeTime : ℕ
  lastRfairDecreaseTime : ℕ

namespace Rc

variable {C : Type}

/-- `iso_rc_init`, with its readings of the clock. -/
def isoRcInit (p : Params) (change decrease : ℕ) : Rc C where
  rfair := p.isoRfairInitial
  rfairTarget := p.isoRfairInitial
  state := .ai
  alpha := 0
  count := 0
  stats := fun _ => {}
  lastRfairChangeTime := change
  lastRfairDecreaseTime := decrease

/-! ### The parts of `iso_rc_rx` -/

/-- What the time of a packet is compared with: the last decrease for a marked one, and otherwise
the last change. -/
def elapsed (marked now : ℕ) (rc : Rc C) : ℕ :=
  u64OfInt (ktimeUsDelta now
    (if marked ≠ 0 then rc.lastRfairDecreaseTime else rc.lastRfairChangeTime))

def interval (p : Params) (marked : ℕ) : ℕ :=
  if marked ≠ 0 then p.isoRfairDecreaseIntervalUs else isoRfairIncreaseIntervalUs

/-- The counters of the CPU. -/
def tally (marked : ℕ) (st : RcStats) : RcStats :=
  { numRx := u64 (st.numRx + 1)
    numMarked := if marked ≠ 0 then u64 (st.numMarked + 1) else st.numMarked }

/-- A controller that was idle for long starts again at `ISO_IDLE_RATE`. -/
def restart (idle : Bool) (rc : Rc C) : Rc C :=
  if idle ∧ rc.rfair > isoIdleRate then { rc with rfair := isoIdleRate, rfairTarget := isoIdleRate }
  else rc

/-- The cut.  `512 - marked` is an `int` and becomes a `u64` in the product. -/
def cut (p : Params) (marked rfair : ℕ) : ℕ :=
  max p.isoMinRfair (u64 (rfair * u64OfInt (512 - marked)) / 512)

def decrease (p : Params) (marked now : ℕ) (rc : Rc C) : Rc C :=
  -- an `s64` is compared here
  let rc := restart (ktimeUsDelta now rc.lastRfairChangeTime > isoIdleTimeoutUs) rc
  { rc with
    rfair := cut p marked rc.rfair
    rfairTarget := rc.rfair
    state := .fastRecovery
    alpha := marked
    count := 0
    lastRfairDecreaseTime := now }

/-- `iso_rc_do_ai`. -/
def isoRcDoAi (p : Params) (rc : Rc C) : Rc C :=
  { rc with rfair := min p.isoMaxTxRate (u64 (rc.rfair + isoRfairIncrement)) }

/-- One step up. -/
def climb (p : Params) (rc : Rc C) : Rc C :=
  if rc.state = .fastRecovery ∧ rc.count < 5 then
    { rc with rfair := u64 (rc.rfair + rc.rfairTarget) / 2, count := rc.count + 1 }
  else
    let rc := isoRcDoAi p { rc with state := .ai, count := 0 }
    { rc with rfairTarget := rc.rfair }

def increase (p : Params) (now : ℕ) (rc : Rc C) : Rc C :=
  -- and a `u64` here
  climb p (restart (elapsed 0 now rc > isoIdleTimeoutUs) rc)

/-- `iso_rc_rx` under the lock. -/
def locked (p : Params) (marked now : ℕ) (rc : Rc C) : Rc C :=
  if elapsed marked now rc < interval p marked then rc
  else if marked ≠ 0 then decrease p marked now rc
  else increase p now rc

/-- `iso_rc_rx` from the label `changed` on, after the lock is free again.  It is reached even if
the second comparison has failed. -/
def changed (now : ℕ) (rc : Rc C) : Rc C := { rc with lastRfairChangeTime := now }

variable [DecidableEq C]

/-- `iso_rc_rx` up to the lock, on CPU `c`: whether it goes on to try it. -/
def arrive (p : Params) (c : C) (marked now : ℕ) (rc : Rc C) : Bool × Rc C :=
  let rc := { rc with stats := Function.update rc.stats c (tally marked (rc.stats c)) }
  (elapsed marked now rc > interval p marked, rc)

/-- `iso_rc_rx`, at time `now`, given whether the lock is free.  The first result is `changed`. -/
def isoRcRx (p : Params) (c : C) (skb : Skb) (now : ℕ) (free : Bool) (rc : Rc C) : Bool × Rc C :=
  let (due, rc) := arrive p c (skbHasFeedback p skb) now rc
  if due && free then (true, changed now (locked p (skbHasFeedback p skb) now rc)) else (false, rc)

/-! ### Any number of CPUs -/

/-- What is done to the rate: cut from `rfair` because of a mark, or one step up, from an idle
restart or not. -/
inductive Change where
  | decrease (marked rfair : ℕ)
  | increase (restarted : Bool)
deriving DecidableEq

/-- The change that `locked` makes. -/
def change (p : Params) (marked now : ℕ) (rc : Rc C) : Option Change :=
  if elapsed marked now rc < interval p marked then none
  else if marked ≠ 0 then
    some (.decrease marked
      (restart (ktimeUsDelta now rc.lastRfairChangeTime > isoIdleTimeoutUs) rc).rfair)
  else some (.increase (elapsed 0 now rc > isoIdleTimeoutUs ∧ rc.rfair > isoIdleRate))

/-- Where a CPU is in `iso_rc_rx`. -/
inductive Cpu where
  | idle
  /-- Before the lock, with its mark and its reading of the clock. -/
  | sampled (marked now : ℕ)
  /-- After the lock. -/
  | unlocked (now : ℕ)
deriving DecidableEq

structure State (C : Type) where
  rc : Rc C
  clock : ℕ
  cpus : C → Cpu
  log : List Change

inductive Op (C : Type) where
  /-- A packet is received, `wait` after the clock was last read. -/
  | packet (c : C) (skb : Skb) (wait : ℕ)
  /-- The CPU goes on with its packet, and tries the lock. -/
  | lock (c : C) (free : Bool)
  /-- The CPU writes the time of its change. -/
  | stamp (c : C)

def step (p : Params) (s : State C) : Op C → State C
  | .packet c skb wait =>
    match s.cpus c with
    | .idle =>
      let marked := skbHasFeedback p skb
      let now := s.clock + wait
      let (due, rc) := arrive p c marked now s.rc
      { s with
        rc := rc
        clock := now
        cpus := if due then Function.update s.cpus c (.sampled marked now) else s.cpus }
    | _ => s -- the CPU has a packet
  | .lock c free =>
    match s.cpus c with
    | .sampled marked now =>
      if free then
        { s with
          rc := locked p marked now s.rc
          cpus := Function.update s.cpus c (.unlocked now)
          log := s.log ++ (change p marked now s.rc).toList }
      else { s with cpus := Function.update s.cpus c .idle }
    | _ => s
  | .stamp c =>
    match s.cpus c with
    | .unlocked now =>
      { s with rc := changed now s.rc, cpus := Function.update s.cpus c .idle }
    | _ => s

/-- A controller that has just been set up, and no CPU at work. -/
def start (p : Params) (change decrease clock : ℕ) : State C :=
  ⟨isoRcInit p change decrease, clock, fun _ => .idle, []⟩

/-- The state after the operations `ops`. -/
def runFrom (p : Params) (t : ℕ × ℕ × ℕ) (ops : List (Op C)) : State C :=
  Machine.run (step p) (start p t.1 t.2.1 t.2.2) ops

/-- The parts, one after the other, are `iso_rc_rx`. -/
theorem rc_step_packet_lock_stamp (p : Params) (s : State C) (c : C) (skb : Skb) (wait : ℕ)
    (free : Bool) (hidle : s.cpus c = .idle) :
    (step p (step p (step p s (.packet c skb wait)) (.lock c free)) (.stamp c)).rc =
      (isoRcRx p c skb (s.clock + wait) free s.rc).2 := by
  have hpacket : step p s (.packet c skb wait) =
      { s with
        rc := (arrive p c (skbHasFeedback p skb) (s.clock + wait) s.rc).2
        clock := s.clock + wait
        cpus := if (arrive p c (skbHasFeedback p skb) (s.clock + wait) s.rc).1 = true then
          Function.update s.cpus c (.sampled (skbHasFeedback p skb) (s.clock + wait))
          else s.cpus } := by
    simp only [step, hidle]
  rw [hpacket, isoRcRx]
  cases hdue : (arrive p c (skbHasFeedback p skb) (s.clock + wait) s.rc).1 with
  | false => simp [step, hidle, hdue]
  | true =>
    cases free with
    | false => simp [step]
    | true => simp [step, hdue]

end Rc

end EyeQ
