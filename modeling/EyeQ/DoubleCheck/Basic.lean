import EyeQ.Ktime
import EyeQ.Machine.Fallible
import Mathlib.Logic.Function.Basic

/-!
# Double-checked periodic updates

A periodic update of a shared state is made by whichever CPU comes first after an interval has
passed.  A CPU reads the clock and compares with the time of the last update, without a lock; if an
update is due it tries to take the lock, compares again, with the reading it has, and makes the
update.

`Updater` is such an update.  `Updater.step` is the machine of any number of CPUs, each in two
atomic steps (`sample` and `lock`), between which the others may do anything.  `log` is a history
variable with the time and the elapsed microseconds of each update made.

`Spaced` says of a log what the comparison is for: consecutive updates are an interval apart, and
the elapsed microseconds are those between them.  `spacedIffInTime` says when it is so: when no CPU
takes the lock with a reading from before the last update.  The elapsed microseconds of such a CPU
are negative, and compared as a `u64` they exceed every interval.
-/

namespace EyeQ

open Machine

/-- A periodic update of a state `σ`.  What else an update depends on is its environment `η`. -/
structure Updater (η ε σ : Type) where
  /-- In microseconds. -/
  interval : ℕ
  /-- The time of the last update. -/
  last : σ → ℕ
  /-- The update, at a time, with the microseconds since the last one. -/
  update : η → ℕ → ℕ → σ → Except ε σ
  last_update : ∀ e now dt s t, update e now dt s = .ok t → last t = now

namespace Updater

variable {η ε σ K : Type} [DecidableEq K]

/-- The microseconds since the last update, as a `u64`. -/
def elapsed (u : Updater η ε σ) (now : ℕ) (s : σ) : ℕ := u64OfInt (ktimeUsDelta now (u.last s))

/-- An update by a CPU that nothing interrupts: both comparisons are the same. -/
def once (u : Updater η ε σ) (e : η) (now : ℕ) (free : Bool) (s : σ) : Except ε σ :=
  if u.elapsed now s < u.interval ∨ ¬ free then pure s else u.update e now (u.elapsed now s) s

/-! ### The machine -/

structure State (K σ : Type) where
  core : σ
  clock : ℕ
  /-- The reading of a CPU between its two steps. -/
  sampled : K → Option ℕ
  /-- The time and the elapsed microseconds of each update. -/
  log : List (ℕ × ℕ)

/-- What can happen.  `wait` is the time since the clock was last read, `free` whether nobody holds
the lock, and `other` whatever else is done to the state. -/
inductive Op (u : Updater η ε σ) (K : Type) where
  | sample (c : K) (wait : ℕ)
  | lock (c : K) (e : η) (free : Bool)
  | other (f : σ → σ) (hf : ∀ s, u.last (f s) = u.last s)

/-- The second step, with the reading `now`. -/
def recheck (u : Updater η ε σ) (e : η) (now : ℕ) (s : State K σ) : Except ε (State K σ) :=
  let dt := u.elapsed now s.core
  if dt < u.interval then pure s
  else do
    let core ← u.update e now dt s.core
    pure { s with core := core, log := s.log ++ [(now, dt)] }

def step (u : Updater η ε σ) (s : State K σ) : Op u K → Except ε (State K σ)
  | .sample c wait =>
    match s.sampled c with
    | some _ => pure s -- the CPU is between its two steps
    | none =>
      let now := s.clock + wait
      let s := { s with clock := now }
      if u.elapsed now s.core < u.interval then pure s
      else pure { s with sampled := Function.update s.sampled c (some now) }
  | .lock c e free =>
    match s.sampled c with
    | none => pure s
    | some now =>
      let s := { s with sampled := Function.update s.sampled c none }
      if free then u.recheck e now s else pure s
  | .other f _ => pure { s with core := f s.core }

/-- No CPU is between its two steps, and nothing has been recorded. -/
def start (core : σ) (clock : ℕ) : State K σ := ⟨core, clock, fun _ => none, []⟩

/-- The two steps, one after the other. -/
theorem run_sample_lock (u : Updater η ε σ) (core : σ) (clock wait : ℕ) (c : K)
    (e : η) (free : Bool) :
    State.core <$> runE u.step (start core clock) [.sample c wait, .lock c e free] =
      u.once e (clock + wait) free core := by
  by_cases hdue : u.elapsed (clock + wait) core < u.interval
  · simp only [runE_cons, runE_nil, start, step, once, hdue, if_true, true_or, pure_bind]
    rfl
  · simp only [runE_cons, runE_nil, start, step, once, recheck, hdue, if_false, pure_bind,
      Function.update_self, false_or]
    cases free with
    | false => rfl
    | true =>
      simp only [if_true, not_true, if_false]
      cases u.update e (clock + wait) (u.elapsed (clock + wait) core) core with
      | ok t => rfl
      | error x => rfl

/-! ### Spacing -/

/-- The time of the last update of a log, `t₀` if there is none. -/
def lastTime (t₀ : ℕ) (log : List (ℕ × ℕ)) : ℕ := log.foldl (fun _ entry => entry.1) t₀

/-- Consecutive updates are an interval apart, and each was made with the microseconds since the one
before; `t₀` is the time of the update before the log. -/
def Spaced (interval : ℕ) : ℕ → List (ℕ × ℕ) → Prop
  | _, [] => True
  | t₀, (now, dt) :: log =>
    (t₀ + 1000 * interval ≤ now ∧ (dt : ℤ) = ktimeUsDelta now t₀) ∧ Spaced interval now log

theorem spaced_append (interval t₀ now dt : ℕ) (log : List (ℕ × ℕ)) :
    Spaced interval t₀ (log ++ [(now, dt)]) ↔
      Spaced interval t₀ log ∧ lastTime t₀ log + 1000 * interval ≤ now ∧
        (dt : ℤ) = ktimeUsDelta now (lastTime t₀ log) := by
  induction log generalizing t₀ with
  | nil => simp [Spaced, lastTime]
  | cons entry log ih =>
    simp only [List.cons_append, Spaced, ih, lastTime, List.foldl_cons, and_assoc]

@[simp] theorem lastTime_append (t₀ now dt : ℕ) (log : List (ℕ × ℕ)) :
    lastTime t₀ (log ++ [(now, dt)]) = now := by
  simp [lastTime]

/-- The microseconds since an earlier update reach the interval exactly if it has passed. -/
theorem le_elapsed_iff {u : Updater η ε σ} {now : ℕ} {s : σ} (hle : u.last s ≤ now)
    (hnow : now < 2 ^ 63) : u.interval ≤ u.elapsed now s ↔ u.last s + 1000 * u.interval ≤ now := by
  have hdt : (u.elapsed now s : ℤ) = ktimeUsDelta now (u.last s) := u64OfInt_ktimeUsDelta hle hnow
  unfold ktimeUsDelta at hdt
  omega

variable {u : Updater η ε σ} {s t : State K σ}

/-- One update was made, at `now`. -/
structure Applied (u : Updater η ε σ) (now : ℕ) (s t : State K σ) : Prop where
  log : t.log = s.log ++ [(now, u.elapsed now s.core)]
  last : u.last t.core = now
  clock : t.clock = s.clock
  sampled : ∀ c now, t.sampled c = some now → s.sampled c = some now

/-- No update was made. -/
structure Quiet (u : Updater η ε σ) (s t : State K σ) : Prop where
  log : t.log = s.log
  last : u.last t.core = u.last s.core
  clock : s.clock ≤ t.clock
  sampled : ∀ c now, t.sampled c = some now → s.sampled c = some now ∨ now = t.clock

/-- The CPU `c` no longer has a reading. -/
theorem sampled_of_update_none {c c' : K} {now : ℕ}
    (h : Function.update s.sampled c none c' = some now) : s.sampled c' = some now := by
  rw [Function.update_apply] at h
  split_ifs at h
  exact h

theorem recheck_applied {e : η} {c : K} {now : ℕ} (hdue : u.interval ≤ u.elapsed now s.core)
    (h : u.recheck e now { s with sampled := Function.update s.sampled c none } = .ok t) :
    Applied u now s t := by
  rw [recheck, if_neg (not_lt.2 hdue)] at h
  obtain ⟨core, hcore, hend⟩ := bind_eq_ok h
  obtain rfl := Except.ok.inj hend
  exact ⟨rfl, u.last_update _ _ _ _ _ hcore, rfl, fun _ _ => sampled_of_update_none⟩

theorem recheck_quiet {e : η} {c : K} {now : ℕ} (hdue : ¬ u.interval ≤ u.elapsed now s.core)
    (h : u.recheck e now { s with sampled := Function.update s.sampled c none } = .ok t) :
    Quiet u s t := by
  rw [recheck, if_pos (not_le.1 hdue)] at h
  obtain rfl := Except.ok.inj h
  exact ⟨rfl, rfl, le_rfl, fun _ _ h => Or.inl (sampled_of_update_none h)⟩

/-- An update is made by a CPU that gets the lock and finds the interval passed, and by no other
operation. -/
theorem step_cases {op : Op u K} (h : u.step s op = .ok t) :
    Quiet u s t ∨ ∃ c e now, op = .lock c e true ∧ s.sampled c = some now ∧
      u.interval ≤ u.elapsed now s.core ∧ Applied u now s t := by
  cases op with
  | sample c wait =>
    left
    simp only [step] at h
    split at h
    · obtain rfl := Except.ok.inj h
      exact ⟨rfl, rfl, le_rfl, fun _ _ => Or.inl⟩
    · split_ifs at h
      · obtain rfl := Except.ok.inj h
        exact ⟨rfl, rfl, Nat.le_add_right .., fun _ _ => Or.inl⟩
      · obtain rfl := Except.ok.inj h
        refine ⟨rfl, rfl, Nat.le_add_right .., fun c' now hnow => ?_⟩
        simp only [Function.update_apply] at hnow
        split_ifs at hnow
        · exact Or.inr (Option.some.inj hnow).symm
        · exact Or.inl hnow
  | lock c e free =>
    simp only [step] at h
    split at h
    · obtain rfl := Except.ok.inj h
      exact Or.inl ⟨rfl, rfl, le_rfl, fun _ _ => Or.inl⟩
    · rename_i now hnow
      cases free with
      | false =>
        obtain rfl := Except.ok.inj h
        exact Or.inl ⟨rfl, rfl, le_rfl, fun _ _ h => Or.inl (sampled_of_update_none h)⟩
      | true =>
        by_cases hdue : u.interval ≤ u.elapsed now s.core
        · exact Or.inr ⟨c, e, now, rfl, hnow, hdue, recheck_applied hdue h⟩
        · exact Or.inl (recheck_quiet hdue h)
  | other f hf =>
    obtain rfl := Except.ok.inj h
    exact Or.inl ⟨rfl, hf _, le_rfl, fun _ _ => Or.inl⟩

/-- A CPU that gets the lock does so with a reading that is not from before the last update. -/
def Op.InTime (s : State K σ) : Op u K → Prop
  | .lock c _ true => ∀ now, s.sampled c = some now → u.last s.core ≤ now
  | _ => True

/-- The log is spaced, and no reading is from the future. -/
structure Regular (u : Updater η ε σ) (t₀ : ℕ) (s : State K σ) : Prop where
  spaced : Spaced u.interval t₀ s.log
  last : u.last s.core = lastTime t₀ s.log
  last_le : u.last s.core ≤ s.clock
  sampled_le : ∀ c now, s.sampled c = some now → now ≤ s.clock

omit [DecidableEq K] in
theorem Regular.quiet {t₀ : ℕ} (h : Regular u t₀ s) (hst : Quiet u s t) : Regular u t₀ t where
  spaced := hst.log ▸ h.spaced
  last := by rw [hst.last, hst.log, h.last]
  last_le := by
    rw [hst.last]
    exact h.last_le.trans hst.clock
  sampled_le := by
    intro c now hnow
    rcases hst.sampled c now hnow with hold | rfl
    · exact (h.sampled_le c now hold).trans hst.clock
    · exact le_rfl

omit [DecidableEq K] in
theorem Regular.applied {t₀ now : ℕ} (h : Regular u t₀ s) (hst : Applied u now s t)
    (hnow : now ≤ s.clock) (hclock : s.clock < 2 ^ 63) (hle : u.last s.core ≤ now)
    (hdue : u.interval ≤ u.elapsed now s.core) : Regular u t₀ t where
  spaced := by
    rw [hst.log, spaced_append, ← h.last]
    have hfits : now < 2 ^ 63 := by omega
    exact ⟨h.spaced, (le_elapsed_iff hle hfits).1 hdue, u64OfInt_ktimeUsDelta hle hfits⟩
  last := by rw [hst.last, hst.log, lastTime_append]
  last_le := by rw [hst.last, hst.clock]; exact hnow
  sampled_le := by
    intro c now' hnow'
    rw [hst.clock]
    exact h.sampled_le c now' (hst.sampled c now' hnow')

theorem clock_le_of_step {op : Op u K} (h : u.step s op = .ok t) : s.clock ≤ t.clock := by
  rcases step_cases h with hst | ⟨_, _, _, -, -, -, hst⟩
  · exact hst.clock
  · exact hst.clock.ge

theorem Regular.step {t₀ : ℕ} {op : Op u K} (h : Regular u t₀ s) (hclock : s.clock < 2 ^ 63)
    (hop : op.InTime s) (hstep : u.step s op = .ok t) : Regular u t₀ t := by
  rcases step_cases hstep with hst | ⟨c, e, now, rfl, hnow, hdue, hst⟩
  · exact h.quiet hst
  · exact h.applied hst (h.sampled_le c now hnow) hclock (hop now hnow) hdue

/-- A CPU with a reading from before the last update makes one more, at an earlier time. -/
theorem Regular.not_spaced_step {t₀ : ℕ} {op : Op u K} (h : Regular u t₀ s)
    (hclock : s.clock < 2 ^ 63) (hinterval : u.interval < 2 ^ 31) (hop : ¬ op.InTime s)
    (hstep : u.step s op = .ok t) : ¬ Spaced u.interval t₀ t.log := by
  cases op with
  | sample c wait => exact absurd trivial hop
  | other f hf => exact absurd trivial hop
  | lock c e free =>
    cases free with
    | false => exact absurd trivial hop
    | true =>
      simp only [Op.InTime, not_forall, not_le] at hop
      obtain ⟨now, hnow, hlt⟩ := hop
      have hlast : u.last s.core < 2 ^ 63 := h.last_le.trans_lt hclock
      have hhuge : 2 ^ 63 ≤ u.elapsed now s.core := le_u64OfInt_ktimeUsDelta hlt hlast
      simp only [Updater.step, hnow, if_true] at hstep
      have hst : Applied u now s t := recheck_applied (by omega) hstep
      rw [hst.log, spaced_append, ← h.last]
      rintro ⟨-, hafter, -⟩
      omega

/-- What is not spaced stays so: the log only grows. -/
theorem not_spaced_step {t₀ : ℕ} {op : Op u K} (h : ¬ Spaced u.interval t₀ s.log)
    (hstep : u.step s op = .ok t) : ¬ Spaced u.interval t₀ t.log := by
  rcases step_cases hstep with hst | ⟨_, _, _, -, -, -, hst⟩
  · rw [hst.log]
    exact h
  · rw [hst.log, spaced_append]
    exact fun hspaced => h hspaced.1

/-- In every run, by any CPUs and while the clock fits a `ktime_t`, the updates are spaced exactly
if no CPU makes one with a reading from before the last. -/
def SpacedIffInTime (u : Updater η ε σ) : Prop :=
  ∀ (K : Type) [DecidableEq K] (core : σ) (clock : ℕ) (ops : List (Op u K)) (t : State K σ),
    u.last core ≤ clock → runE u.step (start core clock) ops = .ok t → t.clock < 2 ^ 63 →
      (Spaced u.interval (u.last core) t.log ↔
        GuardedE u.step (fun s op => op.InTime s) (start core clock) ops)

theorem spacedIffInTime (u : Updater η ε σ) (hinterval : u.interval < 2 ^ 31) :
    u.SpacedIffInTime := by
  intro K _ core clock ops t hcore hrun hclock
  -- the clock does not go back, so where it fits in the end it has always fitted
  have hstart : Regular u (u.last core) (start core clock : State K σ) :=
    ⟨trivial, rfl, hcore, fun _ _ h => nomatch h⟩
  have hor := guardedE_or (G := fun s op => op.InTime s)
    (fun s => s.clock < 2 ^ 63 → Regular u (u.last core) s)
    (fun s => s.clock < 2 ^ 63 → ¬ Spaced u.interval (u.last core) s.log)
    (fun s op t h hop hstep hfits =>
      have hs := (clock_le_of_step hstep).trans_lt hfits
      (h hs).step hs hop hstep)
    (fun s op t h hop hstep hfits =>
      have hs := (clock_le_of_step hstep).trans_lt hfits
      (h hs).not_spaced_step hs hinterval hop hstep)
    (fun s op t h hstep hfits =>
      not_spaced_step (h ((clock_le_of_step hstep).trans_lt hfits)) hstep)
    (fun _ => hstart) hrun
  rcases hor with ⟨hguard, hgood⟩ | ⟨hguard, hbad⟩
  · exact iff_of_true (hgood hclock).spaced hguard
  · exact iff_of_false (hbad hclock) hguard

end Updater

end EyeQ
