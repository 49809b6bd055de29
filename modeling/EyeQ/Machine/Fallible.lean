import Mathlib.Data.List.Basic
import Mathlib.Tactic.SplitIfs

/-!
# Programs that can fail

A step that can fail returns `Except ε σ`.  `Ends P E x` says how the computation `x` may end: with
a state that satisfies `P`, or with an error that satisfies `E`.  `Ends.pure`, `Ends.bind`,
`Ends.map` and `Ends.ite` are the rules of composition, and `runE_ends` is the rule for runs: what
one admissible step keeps, every run keeps, and no run ends with an error outside `E`.  `Fails x`
says that `x` ends with an error.

Whether a step is admissible may depend on the state it starts from.  `GuardedE step G s ops` says
that every operation of a run meets the condition `G` where it starts; `GuardedE.ends` is the rule
for such runs, and `guardedE_or` the rule to show that a condition is exact: the first operation
that misses it does damage which no later one repairs.
-/

namespace EyeQ.Machine

universe u

variable {ε α : Type*} {σ τ : Type u}

/-- How a computation may end. -/
def Ends (P : σ → Prop) (E : ε → Prop) : Except ε σ → Prop
  | .ok s => P s
  | .error e => E e

variable {P : σ → Prop} {Q : τ → Prop} {E : ε → Prop} {x : Except ε σ} {f : σ → Except ε τ}

theorem Ends.pure {s : σ} (hs : P s) : Ends P E (pure s) := hs

theorem Ends.bind (hx : Ends P E x) (hf : ∀ s, P s → Ends Q E (f s)) : Ends Q E (x >>= f) := by
  cases x with
  | ok s => exact hf s hx
  | error e => exact hx

theorem Ends.map {g : σ → τ} (hx : Ends (fun s => Q (g s)) E x) : Ends Q E (g <$> x) := by
  cases x with
  | ok s => exact hx
  | error e => exact hx

theorem Ends.ite {c : Prop} [Decidable c] {y : Except ε σ} (hx : c → Ends P E x)
    (hy : ¬ c → Ends P E y) : Ends P E (if c then x else y) := by
  split_ifs with h
  · exact hx h
  · exact hy h

theorem Ends.mono {P' : σ → Prop} {E' : ε → Prop} (h : Ends P E x) (hP : ∀ s, P s → P' s)
    (hE : ∀ e, E e → E' e) : Ends P' E' x := by
  cases x with
  | ok s => exact hP s h
  | error e => exact hE e h

/-- A computation that cannot fail ends with a state. -/
theorem Ends.exists_ok (h : Ends P (fun _ => False) x) : ∃ s, x = .ok s ∧ P s := by
  cases x with
  | ok s => exact ⟨s, rfl, h⟩
  | error e => exact absurd h id

theorem Ends.of_eq_ok {s : σ} (h : Ends P E x) (hx : x = .ok s) : P s := by
  rw [hx] at h
  exact h

/-- It is enough to look at the states a computation may end with. -/
theorem ends_of_ok (h : ∀ s, x = .ok s → P s) : Ends P (fun _ => True) x := by
  cases x with
  | ok s => exact h s rfl
  | error e => trivial

theorem bind_eq_ok {t : τ} (h : (x >>= f) = .ok t) : ∃ s, x = .ok s ∧ f s = .ok t := by
  cases x with
  | ok s => exact ⟨s, rfl, h⟩
  | error e => exact nomatch h

theorem map_eq_ok {g : σ → τ} {t : τ} (h : (g <$> x) = .ok t) : ∃ s, x = .ok s ∧ g s = t := by
  cases x with
  | ok s => exact ⟨s, rfl, Except.ok.inj h⟩
  | error e => exact nomatch h

theorem error_ne_ok (e : ε) (s : σ) : (.error e : Except ε σ) ≠ .ok s := by
  intro h
  cases h

theorem ends_true (x : Except ε σ) : Ends (fun _ => True) (fun _ => True) x := by
  cases x with
  | ok s => trivial
  | error e => trivial

/-- The computation fails. -/
def Fails (x : Except ε σ) : Prop := ∃ e, x = .error e

theorem Fails.ne_ok (h : Fails x) (s : σ) : x ≠ .ok s := by
  obtain ⟨e, rfl⟩ := h
  exact fun heq => nomatch heq

theorem Fails.bind (h : Fails x) : Fails (x >>= f) := by
  obtain ⟨e, rfl⟩ := h
  exact ⟨e, rfl⟩

/-- The rest of a computation fails, whatever its beginning ends with. -/
theorem Ends.bind_fails (hx : Ends P E x) (hf : ∀ s, P s → Fails (f s)) : Fails (x >>= f) := by
  cases x with
  | ok s => exact hf s hx
  | error e => exact ⟨e, rfl⟩

/-- The state a computation ends with; `d` if it fails. -/
def endOr (d : σ) : Except ε σ → σ
  | .ok s => s
  | .error _ => d

theorem eq_ok_endOr (d : σ) (h : x.isOk = true) : x = .ok (endOr d x) := by
  cases x with
  | ok s => rfl
  | error e => exact absurd h Bool.false_ne_true

/-! ### Runs -/

/-- The state after the operations `ops`, from `s`, or the first error. -/
def runE (step : σ → α → Except ε σ) (s : σ) (ops : List α) : Except ε σ :=
  ops.foldlM step s

variable (step : σ → α → Except ε σ)

@[simp] theorem runE_nil (s : σ) : runE step s [] = .ok s := rfl

@[simp] theorem runE_cons (s : σ) (a : α) (ops : List α) :
    runE step s (a :: ops) = (step s a >>= fun t => runE step t ops) := rfl

/-- What every admissible operation keeps, every run of admissible operations keeps. -/
theorem runE_ends {ok : α → Prop} (hstep : ∀ s a, ok a → P s → Ends P E (step s a)) {s : σ}
    (hs : P s) {ops : List α} (hops : ∀ a ∈ ops, ok a) : Ends P E (runE step s ops) := by
  induction ops generalizing s with
  | nil => exact hs
  | cons a ops ih =>
    rw [runE_cons]
    have hfirst := hstep s a (hops a (List.mem_cons_self ..)) hs
    exact hfirst.bind fun t ht => ih ht fun b hb => hops b (List.mem_cons_of_mem _ hb)

/-! ### Guarded runs -/

/-- Every operation of the run meets the condition `G` in the state it starts from. -/
def GuardedE (G : σ → α → Prop) : σ → List α → Prop
  | _, [] => True
  | s, a :: ops => G s a ∧ ∀ t, step s a = .ok t → GuardedE G t ops

variable {step} {G : σ → α → Prop}

/-- One operation after the other; if the first fails, nothing is asked of the rest. -/
theorem guardedE_cons (d : σ) {s : σ} {a : α} {ops : List α} (ha : G s a)
    (hrest : GuardedE step G (endOr d (step s a)) ops) :
    GuardedE step G s (a :: ops) := by
  refine ⟨ha, fun t ht => ?_⟩
  rw [ht] at hrest
  exact hrest

/-- What every operation that meets the condition keeps, every run of such operations keeps. -/
theorem GuardedE.ends (hstep : ∀ s a, G s a → P s → Ends P E (step s a)) {s : σ} {ops : List α}
    (hops : GuardedE step G s ops) (hs : P s) : Ends P E (runE step s ops) := by
  induction ops generalizing s with
  | nil => exact hs
  | cons a ops ih =>
    rw [runE_cons]
    obtain ⟨ha, hrest⟩ := hops
    have hfirst := hstep s a ha hs
    cases hx : step s a with
    | error e =>
      rw [hx] at hfirst
      exact hfirst
    | ok t => exact ih (hrest t hx) (hfirst.of_eq_ok hx)

/-- Two conditions that come to the same in the states of a run are met by the same runs. -/
theorem guardedE_congr {H : σ → α → Prop} (Inv : σ → Prop)
    (hkeep : ∀ s a t, Inv s → G s a → step s a = .ok t → Inv t)
    (hiff : ∀ s a, Inv s → (H s a ↔ G s a)) {s : σ} (hs : Inv s) (ops : List α) :
    GuardedE step H s ops ↔ GuardedE step G s ops := by
  induction ops generalizing s with
  | nil => exact Iff.rfl
  | cons a ops ih =>
    show H s a ∧ _ ↔ G s a ∧ _
    rw [hiff s a hs]
    refine and_congr_right fun ha => forall_congr' fun t => ?_
    exact imp_congr_right fun ht => ih (hkeep s a t hs ha ht)

/-- Either every operation of a run meets the condition, and what they keep still holds, or one has
missed it, and what that breaks is broken still. -/
theorem guardedE_or (Good Bad : σ → Prop)
    (hkeep : ∀ s a t, Good s → G s a → step s a = .ok t → Good t)
    (hbreak : ∀ s a t, Good s → ¬ G s a → step s a = .ok t → Bad t)
    (hstay : ∀ s a t, Bad s → step s a = .ok t → Bad t) {s t : σ} {ops : List α} (hs : Good s)
    (hrun : runE step s ops = .ok t) :
    GuardedE step G s ops ∧ Good t ∨ ¬ GuardedE step G s ops ∧ Bad t := by
  induction ops generalizing s with
  | nil =>
    obtain rfl := Except.ok.inj hrun
    exact Or.inl ⟨trivial, hs⟩
  | cons a ops ih =>
    rw [runE_cons] at hrun
    obtain ⟨u, hu, hrest⟩ := bind_eq_ok hrun
    by_cases ha : G s a
    · rcases ih (hkeep s a u hs ha hu) hrest with ⟨hguard, hgood⟩ | ⟨hguard, hbad⟩
      · refine Or.inl ⟨⟨ha, fun u' hu' => ?_⟩, hgood⟩
        obtain rfl := Except.ok.inj (hu.symm.trans hu')
        exact hguard
      · exact Or.inr ⟨fun h => hguard (h.2 u hu), hbad⟩
    · have hbad : Bad u := hbreak s a u hs ha hu
      have hends : Ends Bad (fun _ => True) (runE step u ops) :=
        runE_ends step (fun s b (_ : True) hs => ends_of_ok fun t ht => hstay s b t hs ht) hbad
          fun _ _ => trivial
      exact Or.inr ⟨fun h => ha h.1, hends.of_eq_ok hrest⟩

end EyeQ.Machine
