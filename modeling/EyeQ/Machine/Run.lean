import Mathlib.Logic.Relation

/-!
# Runs of a state machine

A machine is a step function `step : σ → α → σ` over operations `α`; `run step s ops` is the state
it is in after `ops`.  `run_invariant` is the rule every safety proof uses: what one admissible
operation preserves, every run of admissible operations preserves.

An operation that is itself a program (a loop, a nested call) is cut into *small steps* by a
relation `small : σ → σ → Prop`.  `IsPath small s t` says that `t` is reached from `s` by small
steps, and `path_invariant` turns an invariant of the small steps into one of whole operations.
-/

namespace EyeQ.Machine

universe u v

variable {σ : Type u} {α : Type v}

/-! ### Runs -/

/-- The state after the operations `ops`, from `s`. -/
def run (step : σ → α → σ) (s : σ) (ops : List α) : σ :=
  ops.foldl step s

variable (step : σ → α → σ)

@[simp] theorem run_nil (s : σ) : run step s [] = s := rfl

@[simp] theorem run_cons (s : σ) (a : α) (ops : List α) :
    run step s (a :: ops) = run step (step s a) ops := rfl

theorem run_append (s : σ) (ops ops' : List α) :
    run step s (ops ++ ops') = run step (run step s ops) ops' :=
  List.foldl_append

/-- What every admissible operation preserves, every run of admissible operations preserves. -/
theorem run_invariant {P : σ → Prop} {ok : α → Prop}
    (hstep : ∀ s a, ok a → P s → P (step s a)) {s : σ} (hs : P s) {ops : List α}
    (hops : ∀ a ∈ ops, ok a) : P (run step s ops) := by
  induction ops generalizing s with
  | nil => exact hs
  | cons a ops ih =>
    rw [run_cons]
    exact ih (hstep s a (hops a (List.mem_cons_self ..)) hs)
      fun b hb => hops b (List.mem_cons_of_mem _ hb)

/-! ### Guarded runs -/

/-- Every operation of the run meets the condition `G` in the state it starts from. -/
def Guarded (G : σ → α → Prop) : σ → List α → Prop
  | _, [] => True
  | s, a :: ops => G s a ∧ Guarded G (step s a) ops

variable {step} {G : σ → α → Prop}

/-- Two conditions that come to the same in the states of a run are met by the same runs. -/
theorem guarded_congr {H : σ → α → Prop} (Inv : σ → Prop)
    (hkeep : ∀ s a, Inv s → G s a → Inv (step s a)) (hiff : ∀ s a, Inv s → (H s a ↔ G s a)) {s : σ}
    (hs : Inv s) (ops : List α) : Guarded step H s ops ↔ Guarded step G s ops := by
  induction ops generalizing s with
  | nil => exact Iff.rfl
  | cons a ops ih =>
    show H s a ∧ _ ↔ G s a ∧ _
    rw [hiff s a hs]
    exact and_congr_right fun ha => ih (hkeep s a hs ha)

/-- What every operation that meets the condition keeps, every run of such operations keeps. -/
theorem Guarded.invariant {P : σ → Prop} (hstep : ∀ s a, G s a → P s → P (step s a)) {s : σ}
    {ops : List α} (hops : Guarded step G s ops) (hs : P s) : P (run step s ops) := by
  induction ops generalizing s with
  | nil => exact hs
  | cons a ops ih => exact ih hops.2 (hstep s a hops.1 hs)

/-- If an operation that meets the condition keeps `P`, and one that misses it breaks `P`, then `P`
holds all along a run exactly if the operations of the run meet the condition.  `Inv` is what every
operation keeps. -/
theorem forall_isPrefix_iff_guarded {P : σ → Prop} (Inv : σ → Prop)
    (hinv : ∀ s a, Inv s → Inv (step s a))
    (hkeep : ∀ s a, Inv s → P s → G s a → P (step s a))
    (hbreak : ∀ s a, Inv s → P s → ¬ G s a → ¬ P (step s a)) {s : σ} (hs : Inv s) (hP : P s)
    (ops : List α) :
    (∀ done, done <+: ops → P (run step s done)) ↔ Guarded step G s ops := by
  induction ops generalizing s with
  | nil =>
    refine iff_of_true (fun done hdone => ?_) trivial
    rw [List.prefix_nil.1 hdone]
    exact hP
  | cons a ops ih =>
    constructor
    · intro h
      have hfirst : P (step s a) := h [a] (List.prefix_append [a] ops)
      have ha : G s a := Classical.byContradiction fun ha => hbreak s a hs hP ha hfirst
      refine ⟨ha, (ih (hinv s a hs) hfirst).1 fun done hdone => ?_⟩
      exact h (a :: done) ((List.prefix_cons_inj a).2 hdone)
    · rintro ⟨ha, hrest⟩ done hdone
      rcases List.prefix_cons_iff.1 hdone with rfl | ⟨rest, rfl, hprefix⟩
      · exact hP
      · exact (ih (hinv s a hs) (hkeep s a hs hP ha)).2 hrest rest hprefix

/-! ### Small steps -/

/-- `t` is reached from `s` by small steps. -/
abbrev IsPath (small : σ → σ → Prop) : σ → σ → Prop := Relation.ReflTransGen small

/-- What every small step preserves, every path of small steps preserves. -/
theorem path_invariant {small : σ → σ → Prop} {P : σ → Prop}
    (hsmall : ∀ s t, small s t → P s → P t) {s t : σ} (hpath : IsPath small s t) (hs : P s) :
    P t := by
  induction hpath with
  | refl => exact hs
  | tail _ hlast ih => exact hsmall _ _ hlast ih

/-- The same, when the end of the path is known to lie within a set `W` that no path enters from
outside: then every state of the path lies in it. -/
theorem path_invariant_within {small : σ → σ → Prop} {P W : σ → Prop}
    (hback : ∀ s t, small s t → W t → W s)
    (hsmall : ∀ s t, small s t → W s → W t → P s → P t) {s t : σ}
    (hpath : IsPath small s t) (hend : W t) (hs : P s) : P t := by
  induction hpath with
  | refl => exact hs
  | tail _ hlast ih =>
    have hmid := hback _ _ hlast hend
    exact hsmall _ _ hlast hmid hend (ih hmid)

end EyeQ.Machine
