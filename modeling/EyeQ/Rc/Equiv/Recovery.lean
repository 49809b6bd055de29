import EyeQ.Rc.Basic
import Mathlib.Tactic.Linarith

/-!
# The rate of `rc.c` over whole runs

Every change keeps the rate and the rate it climbs to between `ISO_MIN_RFAIR` and `ISO_MAX_TX_RATE`
(`Banded`), with one exception.  The mark of a packet is a 16-bit number, the cut is `512 - marked`
parts of 512, and a mark above 512 makes a rate of some 2⁵⁵ Mbit/s of it.  `runFrom_banded_iff` says
that this is the only way out of the band, whatever the CPUs do in between.

`runFrom_recovers` is the law of the recovery.  Each of the first five steps after a cut halves what
is missing (rounded up), each later one adds `ISO_RFAIR_INCREMENT` up to `ISO_MAX_TX_RATE`.
-/

namespace EyeQ

/-- A configuration in which the controller starts in its band, an idle restart stays there, and the
sums fit. -/
structure Params.RcSane (p : Params) : Prop where
  minRfair_pos : 0 < p.isoMinRfair
  minRfair_le_idle : p.isoMinRfair ≤ isoIdleRate
  minRfair_le_initial : p.isoMinRfair ≤ p.isoRfairInitial
  initial_le_max : p.isoRfairInitial ≤ p.isoMaxTxRate
  max_lt : p.isoMaxTxRate < 2 ^ 31

/-- The defaults are such a configuration. -/
theorem Params.rcSane_default : ({} : Params).RcSane := by
  constructor
  all_goals decide

namespace Rc

variable {C : Type}

/-! ### The band -/

structure Banded (p : Params) (rc : Rc C) : Prop where
  ge : p.isoMinRfair ≤ rc.rfair
  le : rc.rfair ≤ p.isoMaxTxRate
  target_ge : p.isoMinRfair ≤ rc.rfairTarget
  target_le : rc.rfairTarget ≤ p.isoMaxTxRate

theorem banded_init {p : Params} (hp : p.RcSane) (change decrease : ℕ) :
    (isoRcInit p change decrease : Rc C).Banded p where
  ge := hp.minRfair_le_initial
  le := hp.initial_le_max
  target_ge := hp.minRfair_le_initial
  target_le := hp.initial_le_max

variable {p : Params} {rc : Rc C}

theorem Banded.congr {rc' : Rc C} (h : rc.Banded p) (hrfair : rc'.rfair = rc.rfair)
    (htarget : rc'.rfairTarget = rc.rfairTarget) : rc'.Banded p :=
  ⟨hrfair ▸ h.ge, hrfair ▸ h.le, htarget ▸ h.target_ge, htarget ▸ h.target_le⟩

theorem Banded.restart (hp : p.RcSane) (h : rc.Banded p) (idle : Bool) :
    (restart idle rc).Banded p := by
  unfold Rc.restart
  split_ifs with hidle
  · have hmax := hidle.2.le.trans h.le
    exact ⟨hp.minRfair_le_idle, hmax, hp.minRfair_le_idle, hmax⟩
  · exact h

/-! ### The cut -/

/-- A cut by a fraction. -/
theorem cut_of_le {marked rfair : ℕ} (hmarked : marked ≤ 512) (hrfair : rfair < 2 ^ 31) :
    cut p marked rfair = max p.isoMinRfair (rfair * (512 - marked) / 512) := by
  have hfactor : u64OfInt (512 - marked) = 512 - marked := by
    unfold u64OfInt
    omega
  have hprod : rfair * (512 - marked) ≤ rfair * 512 := Nat.mul_le_mul_left _ (Nat.sub_le ..)
  rw [cut, hfactor, u64_of_lt (by omega)]

theorem cut_le {marked rfair : ℕ} (hmarked : marked ≤ 512) (hrfair : rfair < 2 ^ 31)
    (hmin : p.isoMinRfair ≤ rfair) : cut p marked rfair ≤ rfair := by
  rw [cut_of_le hmarked hrfair]
  refine max_le hmin (Nat.div_le_of_le_mul ?_)
  rw [Nat.mul_comm]
  exact Nat.mul_le_mul_right _ (Nat.sub_le ..)

/-- A mark above 512 makes a factor just below `2^64`, and a rate just below `2^55`. -/
theorem lt_cut {marked rfair : ℕ} (hmarked : 512 < marked) (hfits : marked < 2 ^ 16)
    (hpos : 0 < rfair) (hrfair : rfair < 2 ^ 31) : 2 ^ 54 < cut p marked rfair := by
  obtain ⟨extra, rfl⟩ := Nat.exists_eq_add_of_lt hmarked
  have hfactor : u64OfInt (512 - (512 + extra + 1 : ℕ)) = 2 ^ 64 - (extra + 1) := by
    unfold u64OfInt
    omega
  have hsmall : rfair * (extra + 1) < 2 ^ 47 := by
    calc rfair * (extra + 1) < 2 ^ 31 * (extra + 1) := Nat.mul_lt_mul_of_pos_right hrfair (by omega)
      _ ≤ 2 ^ 31 * 2 ^ 16 := Nat.mul_le_mul_left _ (by omega)
  have hsplit : rfair * (2 ^ 64 - (extra + 1)) =
      (2 ^ 64 - rfair * (extra + 1)) + 2 ^ 64 * (rfair - 1) := by
    rw [Nat.mul_sub, Nat.mul_sub]
    omega
  have hprod : u64 (rfair * (2 ^ 64 - (extra + 1))) = 2 ^ 64 - rfair * (extra + 1) := by
    have hposprod : 0 < rfair * (extra + 1) := Nat.mul_pos hpos (Nat.succ_pos _)
    rw [hsplit, u64, Nat.add_mul_mod_self_left]
    exact Nat.mod_eq_of_lt (by omega)
  rw [cut, hfactor, hprod]
  exact lt_max_of_lt_right (by omega)

/-! ### One change -/

theorem Banded.decrease (hp : p.RcSane) (h : rc.Banded p) {marked : ℕ} (hmarked : marked ≤ 512)
    (now : ℕ) : (decrease p marked now rc).Banded p := by
  have hstart := h.restart hp (ktimeUsDelta now rc.lastRfairChangeTime > isoIdleTimeoutUs)
  have hcut := cut_le hmarked (hstart.le.trans_lt hp.max_lt) hstart.ge
  exact
    { ge := le_max_left _ _
      le := hcut.trans hstart.le
      target_ge := hstart.ge
      target_le := hstart.le }

/-- A mark above 512 leads out of the band. -/
theorem Banded.lt_rfair_decrease (hp : p.RcSane) (h : rc.Banded p) {marked : ℕ}
    (hmarked : 512 < marked) (hfits : marked < 2 ^ 16) (now : ℕ) :
    p.isoMaxTxRate < (Rc.decrease p marked now rc).rfair := by
  have hmax := hp.max_lt
  have hstart := h.restart hp (ktimeUsDelta now rc.lastRfairChangeTime > isoIdleTimeoutUs)
  have hhuge := lt_cut (p := p) hmarked hfits (hp.minRfair_pos.trans_le hstart.ge)
    (hstart.le.trans_lt hp.max_lt)
  unfold Rc.decrease
  dsimp only
  omega

theorem Banded.climb (hp : p.RcSane) (h : rc.Banded p) : (climb p rc).Banded p := by
  have hmax := hp.max_lt
  obtain ⟨hge, hle, htarget_ge, htarget_le⟩ := h
  unfold Rc.climb
  split_ifs with hphase
  · -- the mean of two rates of the band
    have hsum : u64 (rc.rfair + rc.rfairTarget) = rc.rfair + rc.rfairTarget := u64_of_lt (by omega)
    exact
      { ge := by dsimp only; omega
        le := by dsimp only; omega
        target_ge := htarget_ge
        target_le := htarget_le }
  · have hsum : u64 (rc.rfair + isoRfairIncrement) = rc.rfair + isoRfairIncrement :=
      u64_of_lt (by unfold isoRfairIncrement; omega)
    have hup : p.isoMinRfair ≤ (isoRcDoAi p { rc with state := .ai, count := 0 }).rfair := by
      dsimp only [isoRcDoAi]
      rw [hsum]
      exact le_min (hge.trans hle) (hge.trans (Nat.le_add_right ..))
    exact ⟨hup, min_le_left _ _, hup, min_le_left _ _⟩

theorem Banded.increase (hp : p.RcSane) (h : rc.Banded p) (now : ℕ) :
    (increase p now rc).Banded p :=
  (h.restart hp _).climb hp

/-- The packet is in time, and its mark is a fraction. -/
theorem Banded.locked (hp : p.RcSane) (h : rc.Banded p) {marked now : ℕ}
    (hmarked : interval p marked ≤ elapsed marked now rc → marked ≤ 512) :
    (locked p marked now rc).Banded p := by
  unfold Rc.locked
  split_ifs with hearly hmark
  · exact h
  · exact h.decrease hp (hmarked (not_lt.1 hearly)) now
  · exact h.increase hp now

theorem Banded.not_locked (hp : p.RcSane) (h : rc.Banded p) {marked now : ℕ}
    (hdue : interval p marked ≤ elapsed marked now rc) (hmarked : 512 < marked)
    (hfits : marked < 2 ^ 16) : ¬ (Rc.locked p marked now rc).Banded p := by
  unfold Rc.locked
  rw [if_neg (not_lt.2 hdue), if_pos (by omega)]
  exact fun hbanded => hbanded.le.not_gt (h.lt_rfair_decrease hp hmarked hfits now)

/-! ### Runs -/

variable [DecidableEq C] {s : State C}

/-- Every packet that a CPU has at hand has a 16-bit mark. -/
def Sampled16 (s : State C) : Prop :=
  ∀ c marked now, s.cpus c = .sampled marked now → marked < 2 ^ 16

/-- A CPU that gets the lock in time does not cut by more than all of the rate. -/
def MarkFits (p : Params) (s : State C) : Op C → Prop
  | .lock c true => ∀ marked now, s.cpus c = .sampled marked now →
      interval p marked ≤ elapsed marked now s.rc → marked ≤ 512
  | _ => True

/-- What an operation does to the controller and to its history. -/
inductive Effect (p : Params) (s t : State C) : Op C → Prop
  /-- Only counters and the time of the last change are written, and CPUs go on. -/
  | quiet {op : Op C} (rc : t.rc = { s.rc with
        stats := t.rc.stats, lastRfairChangeTime := t.rc.lastRfairChangeTime })
      (log : t.log = s.log) (fits : MarkFits p s op) : Effect p s t op
  | locked {c : C} {marked now : ℕ} (hsampled : s.cpus c = .sampled marked now)
      (rc : t.rc = Rc.locked p marked now s.rc)
      (log : t.log = s.log ++ (change p marked now s.rc).toList) : Effect p s t (.lock c true)

theorem step_effect (p : Params) (s : State C) (op : Op C) : Effect p s (step p s op) op := by
  cases op with
  | packet c skb wait =>
    cases hc : s.cpus c <;> exact .quiet (by simp only [step, hc, arrive])
      (by simp only [step, hc]) trivial
  | stamp c =>
    cases hc : s.cpus c <;> exact .quiet (by simp only [step, hc, changed])
      (by simp only [step, hc]) trivial
  | lock c free =>
    cases free with
    | false =>
      cases hc : s.cpus c <;> exact .quiet (by simp [step, hc]) (by simp [step, hc]) trivial
    | true =>
      cases hc : s.cpus c with
      | sampled marked now => exact .locked hc (by simp [step, hc]) (by simp [step, hc])
      | _ =>
        refine .quiet (by simp only [step, hc]) (by simp only [step, hc]) fun marked now h => ?_
        cases hc.symm.trans h

/-- A CPU has the mark of a packet, or of none. -/
theorem Sampled16.update (h : Sampled16 s) {t : State C} {c : C} {x : Cpu}
    (ht : t.cpus = Function.update s.cpus c x) (hx : ∀ marked now, x = .sampled marked now →
      marked < 2 ^ 16) :
    Sampled16 t := by
  intro c' marked now hc'
  rw [ht, Function.update_apply] at hc'
  split_ifs at hc'
  · exact hx marked now hc'
  · exact h c' marked now hc'

theorem Sampled16.step (h : Sampled16 s) (op : Op C) : Sampled16 (Rc.step p s op) := by
  cases op with
  | packet c skb wait =>
    simp only [Rc.step]
    split
    · split_ifs
      · refine h.update (t := { s with cpus := _ }) rfl fun marked now hx => ?_
        cases hx
        exact skbHasFeedback_lt p skb
      · exact h
    · exact h
  | lock c free =>
    simp only [Rc.step]
    split
    · split_ifs
      · exact h.update rfl fun marked now hx => by cases hx
      · exact h.update rfl fun marked now hx => by cases hx
    · exact h
  | stamp c =>
    simp only [Rc.step]
    split
    · exact h.update rfl fun marked now hx => by cases hx
    · exact h

theorem Banded.step (hp : p.RcSane) (h : s.rc.Banded p) {op : Op C} (hop : MarkFits p s op) :
    (Rc.step p s op).rc.Banded p := by
  cases step_effect p s op with
  | quiet rc log fits =>
    rw [rc]
    exact h.congr rfl rfl
  | locked hsampled rc log =>
    rw [rc]
    exact h.locked hp (hop _ _ hsampled)

theorem Banded.not_step (hp : p.RcSane) (h : s.rc.Banded p) (hs : Sampled16 s) {op : Op C}
    (hop : ¬ MarkFits p s op) : ¬ (Rc.step p s op).rc.Banded p := by
  cases step_effect p s op with
  | quiet rc log fits => exact absurd fits hop
  | @locked c marked now hsampled rc log =>
    rw [rc]
    have hmiss : interval p marked ≤ elapsed marked now s.rc ∧ 512 < marked := by
      by_contra hfine
      refine hop fun marked' now' hc hdue => ?_
      rw [hsampled] at hc
      cases hc
      omega
    exact h.not_locked hp hmiss.1 hmiss.2 (hs _ _ _ hsampled)

/-- The rate is in its band all along a run exactly if no CPU cuts it with a mark above 512. -/
theorem runFrom_banded_iff (p : Params) (hp : p.RcSane) (t : ℕ × ℕ × ℕ) (ops : List (Op C)) :
    (∀ done, done <+: ops → (runFrom p t done).rc.Banded p) ↔
      Machine.Guarded (step p) (MarkFits p) (start p t.1 t.2.1 t.2.2) ops :=
  Machine.forall_isPrefix_iff_guarded Sampled16 (fun _ op h => h.step op)
    (fun _ _ _ h hop => Banded.step hp h hop) (fun _ _ hs h hop => Banded.not_step hp h hs hop)
    (fun _ _ _ h => by cases h) (banded_init hp _ _) ops

/-- A packet with the mark `ipId`. -/
def packetWith (ipId : UInt16) : Skb := .datagram 0 1000 1 2 143 0 ipId

/-- A cut by half and a step up, 200 µs apart, on two CPUs.  The second one is done before the first
writes the time of its change. -/
def cutAndClimb : List (Op Bool) :=
  [.packet true (packetWith 256) 200000, .lock true true, .packet false (packetWith 0) 200000,
    .lock false true, .stamp true, .stamp false]

theorem guarded_cutAndClimb :
    Machine.Guarded (step {}) (MarkFits {}) (start {} 0 0 0) cutAndClimb := by
  refine ⟨trivial, fun marked now hsampled _ => ?_, trivial,
    fun marked now hsampled _ => ?_, trivial, trivial, trivial⟩
  · have hcpu : Cpu.sampled 256 200000 = .sampled marked now := hsampled
    cases hcpu
    decide
  · have hcpu : Cpu.sampled 0 400000 = .sampled marked now := hsampled
    cases hcpu
    decide

theorem banded_cutAndClimb :
    (runFrom {} (0, 0, 0) cutAndClimb).rc.rfair = 3750 ∧
      ∀ done, done <+: cutAndClimb → (runFrom {} (0, 0, 0) done).rc.Banded {} :=
  ⟨by decide, (runFrom_banded_iff {} Params.rcSane_default (0, 0, 0) cutAndClimb).2
    guarded_cutAndClimb⟩

/-! ### The recovery -/

/-- The last cut, as its mark and the rate before it, and the number of steps up since; `none` if
there was an idle restart since, or no cut at all. -/
def sinceDecrease (log : List Change) : Option (ℕ × ℕ × ℕ) := log.foldl after none
where
  after : Option (ℕ × ℕ × ℕ) → Change → Option (ℕ × ℕ × ℕ)
    | _, .decrease marked rfair => some (marked, rfair, 0)
    | last, .increase restarted =>
      if restarted then none else last.map fun x => (x.1, x.2.1, x.2.2 + 1)

/-- The rate after `n` steps up, from `r` on the way back to `t`. -/
def recovered (p : Params) (r t n : ℕ) : ℕ :=
  if n ≤ 5 then t - (t - r + (2 ^ n - 1)) / 2 ^ n
  else min p.isoMaxTxRate (t - (t - r + 31) / 32 + isoRfairIncrement * (n - 5))

/-- A controller `n` steps after a cut. -/
structure Recovering (p : Params) (marked t n : ℕ) (rc : Rc C) : Prop where
  rfair : rc.rfair = recovered p (cut p marked t) t n
  fast : n ≤ 5 → rc.state = .fastRecovery ∧ rc.count = n ∧ rc.rfairTarget = t
  slow : 5 < n → rc.state = .ai

/-- Half of what is missing, rounded up. -/
theorem halve_gap (g n : ℕ) :
    ((g + (2 ^ n - 1)) / 2 ^ n + 1) / 2 = (g + (2 ^ (n + 1) - 1)) / 2 ^ (n + 1) := by
  have hpos : 0 < 2 ^ n := Nat.two_pow_pos n
  have hsum : g + (2 ^ (n + 1) - 1) = g + (2 ^ n - 1) + 2 ^ n := by
    rw [pow_succ]
    omega
  rw [hsum, pow_succ, ← Nat.div_div_eq_div_mul, Nat.add_div_right _ hpos]

theorem gap_le (g n : ℕ) : (g + (2 ^ n - 1)) / 2 ^ n ≤ g := by
  rw [Nat.div_le_iff_le_mul_add_pred (Nat.two_pow_pos n)]
  exact Nat.add_le_add_right (Nat.le_mul_of_pos_left g (Nat.two_pow_pos n)) _

omit [DecidableEq C] in
theorem recovering_decrease (p : Params) (marked now : ℕ) (rc : Rc C) (hrc : rc.Banded p)
    (hp : p.RcSane) (hmarked : marked ≤ 512) :
    Recovering p marked
      (restart (ktimeUsDelta now rc.lastRfairChangeTime > isoIdleTimeoutUs) rc).rfair 0
      (decrease p marked now rc) where
  rfair := by
    have hstart := hrc.restart hp (ktimeUsDelta now rc.lastRfairChangeTime > isoIdleTimeoutUs)
    have hle := cut_le hmarked (hstart.le.trans_lt hp.max_lt) hstart.ge
    rw [recovered, if_pos (by decide)]
    unfold decrease
    dsimp only
    omega
  fast := fun _ => ⟨rfl, rfl, rfl⟩
  slow := fun h => absurd h (by decide)

omit [DecidableEq C] in
/-- One step of the recovery. -/
theorem Recovering.climb {marked t n : ℕ} {rc : Rc C} (h : Recovering p marked t n rc)
    (hp : p.RcSane) (hrc : rc.Banded p) : Recovering p marked t (n + 1) (Rc.climb p rc) := by
  have hmax := hp.max_lt
  obtain ⟨-, hle, -, htarget⟩ := hrc
  obtain ⟨hrfair, hfast, hslow⟩ := h
  by_cases hn : n < 5
  · -- half of the way
    obtain ⟨hstate, hcount, htarget_eq⟩ := hfast hn.le
    have hclimb : Rc.climb p rc = { rc with
        rfair := u64 (rc.rfair + rc.rfairTarget) / 2, count := rc.count + 1 } := by
      rw [Rc.climb, if_pos ⟨hstate, by omega⟩]
    rw [hclimb]
    refine ⟨?_, fun _ => ⟨hstate, by rw [hcount], htarget_eq⟩, fun h => absurd h (by omega)⟩
    have hgap := halve_gap (t - cut p marked t) n
    have hless := gap_le (t - cut p marked t) n
    rw [recovered, if_pos hn.le] at hrfair
    rw [recovered, if_pos (by omega), u64_of_lt (by omega), ← hgap]
    dsimp only
    omega
  · -- additive increase
    have hphase : ¬ (rc.state = .fastRecovery ∧ rc.count < 5) := by
      rintro ⟨hstate, hcount⟩
      by_cases hn5 : n ≤ 5
      · have := (hfast hn5).2.1
        omega
      · rw [hslow (by omega)] at hstate
        cases hstate
    have hsum : u64 (rc.rfair + isoRfairIncrement) = rc.rfair + isoRfairIncrement :=
      u64_of_lt (by unfold isoRfairIncrement; omega)
    have hclimb : (Rc.climb p rc).rfair = min p.isoMaxTxRate (rc.rfair + isoRfairIncrement) := by
      rw [Rc.climb, if_neg hphase, ← hsum]
      rfl
    refine ⟨?_, fun h => absurd h (by omega), fun _ => ?_⟩
    · rw [hclimb, recovered, if_neg (by omega), hrfair, recovered]
      by_cases hn5 : n = 5
      · subst hn5
        rfl
      · rw [if_neg (by omega)]
        unfold isoRfairIncrement
        omega
    · rw [Rc.climb, if_neg hphase]
      rfl

/-- The history says how far the recovery has come. -/
def Follows (p : Params) (s : State C) : Prop :=
  ∀ marked t n, sinceDecrease s.log = some (marked, t, n) → Recovering p marked t n s.rc

theorem sinceDecrease_append (log : List Change) (x : Change) :
    sinceDecrease (log ++ [x]) = sinceDecrease.after (sinceDecrease log) x := by
  rw [sinceDecrease, List.foldl_append]
  rfl

omit [DecidableEq C] in
/-- Neither the counters nor the time of the last change have to do with it. -/
theorem Recovering.congr {marked t n : ℕ} {rc rc' : Rc C} (h : Recovering p marked t n rc)
    (hrfair : rc'.rfair = rc.rfair) (hstate : rc'.state = rc.state) (hcount : rc'.count = rc.count)
    (htarget : rc'.rfairTarget = rc.rfairTarget) : Recovering p marked t n rc' :=
  ⟨hrfair ▸ h.rfair, fun hn => by rw [hstate, hcount, htarget]; exact h.fast hn,
    fun hn => hstate ▸ h.slow hn⟩

omit [DecidableEq C] in
/-- What is done under the lock is what the history says. -/
theorem recovering_locked (hp : p.RcSane) {rc : Rc C} (hrc : rc.Banded p) {log : List Change}
    (hlog : ∀ marked t n, sinceDecrease log = some (marked, t, n) → Recovering p marked t n rc)
    {marked now : ℕ} (hmarked : interval p marked ≤ elapsed marked now rc → marked ≤ 512)
    {marked' t n : ℕ}
    (h : sinceDecrease (log ++ (change p marked now rc).toList) = some (marked', t, n)) :
    Recovering p marked' t n (locked p marked now rc) := by
  unfold change at h
  unfold locked
  split_ifs at h with hearly hmark
  · -- the second comparison fails
    rw [Option.toList_none, List.append_nil] at h
    rw [if_pos hearly]
    exact hlog _ _ _ h
  · -- a cut
    rw [Option.toList_some, sinceDecrease_append] at h
    obtain ⟨rfl, rfl, rfl⟩ : marked = marked' ∧ _ = t ∧ 0 = n := by
      simpa only [sinceDecrease.after, Option.some.injEq, Prod.mk.injEq] using h
    rw [if_neg hearly, if_pos hmark]
    exact recovering_decrease p marked now rc hrc hp (hmarked (not_lt.1 hearly))
  · -- a step up, which is not an idle restart
    rw [Option.toList_some, sinceDecrease_append, sinceDecrease.after] at h
    split_ifs at h with hrestart
    obtain ⟨⟨m, t', n'⟩, hlast, hx⟩ := Option.map_eq_some_iff.1 h
    obtain ⟨rfl, rfl, rfl⟩ : m = marked' ∧ t' = t ∧ n' + 1 = n := by
      simpa only [Prod.mk.injEq] using hx
    have hstay : restart (elapsed 0 now rc > isoIdleTimeoutUs) rc = rc := by
      rw [restart, if_neg]
      simpa using hrestart
    rw [if_neg hearly, if_neg hmark, increase, hstay]
    exact (hlog _ _ _ hlast).climb hp hrc

theorem Follows.step (hp : p.RcSane) (hrc : s.rc.Banded p) (h : Follows p s) {op : Op C}
    (hop : MarkFits p s op) : Follows p (Rc.step p s op) := by
  intro marked t n hsince
  cases step_effect p s op with
  | quiet rc log fits =>
    rw [log] at hsince
    rw [rc]
    exact (h marked t n hsince).congr rfl rfl rfl rfl
  | locked hsampled rc log =>
    rw [log] at hsince
    rw [rc]
    exact recovering_locked hp hrc h (hop _ _ hsampled) hsince

/-- In every run without such marks, by any CPUs: `n` steps after a cut from the rate `t`, the rate
has made up for all but `2⁻ⁿ` of the cut, and after five steps it grows by the increment. -/
theorem runFrom_recovers (p : Params) (hp : p.RcSane) (t : ℕ × ℕ × ℕ) (ops : List (Op C))
    (hops : Machine.Guarded (step p) (MarkFits p) (start p t.1 t.2.1 t.2.2) ops) (marked r n : ℕ)
    (hsince : sinceDecrease (runFrom p t ops).log = some (marked, r, n)) :
    (runFrom p t ops).rc.rfair = recovered p (cut p marked r) r n := by
  have hinv : (runFrom p t ops).rc.Banded p ∧ Follows p (runFrom p t ops) :=
    Machine.Guarded.invariant (P := fun s => s.rc.Banded p ∧ Follows p s)
      (fun _ _ hop h => ⟨h.1.step hp hop, h.2.step hp h.1 hop⟩) hops
      ⟨banded_init hp _ _, fun _ _ _ h => absurd h.symm (Option.some_ne_none _)⟩
  exact (hinv.2 marked r n hsince).rfair

/-- From 5000 to 2500 and half of the way back. -/
theorem recovers_cutAndClimb :
    sinceDecrease (runFrom {} (0, 0, 0) cutAndClimb).log = some (256, 5000, 1) ∧
      (runFrom {} (0, 0, 0) cutAndClimb).rc.rfair = recovered {} (cut {} 256 5000) 5000 1 :=
  ⟨by decide, runFrom_recovers {} Params.rcSane_default (0, 0, 0) cutAndClimb
    guarded_cutAndClimb 256 5000 1 (by decide)⟩

example : recovered {} (cut {} 256 5000) 5000 1 = 3750 := by decide

end Rc

end EyeQ
