import Mathlib.Data.List.Nodup
import Mathlib.Data.Option.Basic
import Mathlib.Logic.Function.Basic

/-!
# Simulation of programs that may die

A program that may die returns `Option σ`.  `Option.Rel R x y` says that `x` and `y` die together,
and end in states related by `R` otherwise; `rel_bind` and `rel_foldlM` compose such facts along a
program.

`atKey k f` and `updateAt f` work on one entry of a store.  `foldlM_updateAt` says what a loop over
entries with different keys does: it succeeds exactly if each round does on its own.
-/

namespace EyeQ.Machine

section Simulation

variable {α σ σ' τ τ' : Type} {R : σ → σ' → Prop} {Q : τ → τ' → Prop}

theorem rel_bind {x : Option σ} {x' : Option σ'} {f : σ → Option τ} {f' : σ' → Option τ'}
    (hx : Option.Rel R x x') (hf : ∀ s s', R s s' → Option.Rel Q (f s) (f' s')) :
    Option.Rel Q (x.bind f) (x'.bind f') := by
  cases hx with
  | some h => exact hf _ _ h
  | none => exact .none

theorem rel_map {x : Option σ} {x' : Option σ'} {g : σ → τ} {g' : σ' → τ'} (hx : Option.Rel R x x')
    (hg : ∀ s s', R s s' → Q (g s) (g' s')) : Option.Rel Q (x.map g) (x'.map g') := by
  cases hx with
  | some h => exact .some (hg _ _ h)
  | none => exact .none

theorem rel_mono {R' : σ → σ' → Prop} {x : Option σ} {x' : Option σ'} (hx : Option.Rel R x x')
    (hR : ∀ s s', R s s' → R' s s') : Option.Rel R' x x' := by
  cases hx with
  | some h => exact .some (hR _ _ h)
  | none => exact .none

/-- Two simulations, one after the other. -/
theorem rel_comp {υ : Type} {S : σ' → υ → Prop} {T : σ → υ → Prop} {x : Option σ}
    {y : Option σ'} {z : Option υ} (hxy : Option.Rel R x y) (hyz : Option.Rel S y z)
    (hT : ∀ s t u, R s t → S t u → T s u) :
    Option.Rel T x z := by
  cases hxy with
  | some h =>
    cases hyz with
    | some h' => exact .some (hT _ _ _ h h')
  | none =>
    cases hyz with
    | none => exact .none

theorem rel_foldlM {step : σ → α → Option σ} {step' : σ' → α → Option σ'} {l : List α}
    (hstep : ∀ a ∈ l, ∀ s s', R s s' → Option.Rel R (step s a) (step' s' a)) {s : σ}
    {s' : σ'} (hs : R s s') :
    Option.Rel R (l.foldlM step s) (l.foldlM step' s') := by
  induction l generalizing s s' with
  | nil => exact .some hs
  | cons a l ih =>
    rw [List.foldlM_cons, List.foldlM_cons]
    refine rel_bind (hstep a List.mem_cons_self s s' hs) fun t t' ht => ?_
    exact ih (fun b hb => hstep b (List.mem_cons_of_mem _ hb)) ht

/-- A loop whose relation depends on the rounds that are over, the last one first. -/
theorem rel_foldlM_done {R : List α → σ → σ' → Prop} {step : σ → α → Option σ}
    {step' : σ' → α → Option σ'} {l : List α} (hstep : ∀ a ∈ l, ∀ done s s', R done s s' →
      Option.Rel (R (a :: done)) (step s a) (step' s' a))
    {done : List α} {s : σ} {s' : σ'} (hs : R done s s') :
    Option.Rel (R (l.reverse ++ done)) (l.foldlM step s) (l.foldlM step' s') := by
  induction l generalizing done s s' with
  | nil => exact .some hs
  | cons a l ih =>
    rw [List.foldlM_cons, List.foldlM_cons, List.reverse_cons, List.append_assoc]
    refine rel_bind (hstep a List.mem_cons_self done s s' hs) fun t t' ht => ?_
    exact ih (fun b hb => hstep b (List.mem_cons_of_mem _ hb)) ht

/-- A program ends if the one it is compared with ends, and in a related state. -/
theorem rel_some {x : Option σ} {t : σ'} (h : Option.Rel R x (some t)) :
    ∃ s, x = some s ∧ R s t := by
  cases h with
  | some h => exact ⟨_, rfl, h⟩

theorem some_rel {s : σ} {y : Option σ'} (h : Option.Rel R (some s) y) :
    ∃ t, y = some t ∧ R s t := by
  cases h with
  | some h => exact ⟨_, rfl, h⟩

end Simulation

section Store

variable {κ α ν : Type} [DecidableEq κ]

/-- Work on the entry with the key `k`. -/
def atKey (k : κ) (f : ν → Option ν) (m : κ → ν) : Option (κ → ν) :=
  (f (m k)).map (Function.update m k)

theorem atKey_bind (k : κ) (f g : ν → Option ν) (m : κ → ν) :
    (atKey k f m).bind (atKey k g) = atKey k (fun v => (f v).bind g) m := by
  unfold atKey
  dsimp only
  cases f (m k) with
  | none => rfl
  | some v =>
    have hidem : Function.update (Function.update m k v) k = Function.update m k :=
      funext fun w => Function.update_idem v w m
    simp only [Option.map_some, Option.bind_some, Function.update_self, hidem]

theorem foldlM_atKey (k : κ) (step : ν → α → Option ν) (l : List α) (m : κ → ν) :
    l.foldlM (fun m a => atKey k (step · a) m) m = atKey k (fun v => l.foldlM step v) m := by
  induction l generalizing m with
  | nil => simp [atKey]
  | cons a l ih =>
    simp only [List.foldlM_cons, Option.bind_eq_bind, ← atKey_bind]
    exact congrArg (Option.bind _) (funext ih)

/-- Work on the entry with the key of `e`. -/
def updateAt (f : α → ν → Option ν) (m : κ → ν) (e : κ × α) : Option (κ → ν) := atKey e.1 (f e.2) m

theorem foldlM_updateAt {f : α → ν → Option ν} {l : List (κ × α)}
    (hl : (l.map Prod.fst).Nodup) {m m' : κ → ν} :
    l.foldlM (updateAt f) m = some m' ↔
      (∀ e ∈ l, f e.2 (m e.1) = some (m' e.1)) ∧ ∀ k ∉ l.map Prod.fst, m' k = m k := by
  induction l generalizing m with
  | nil =>
    rw [List.foldlM_nil]
    simp only [Option.pure_def, Option.some_inj, funext_iff, List.not_mem_nil,
      false_imp_iff, implies_true, List.map_nil, not_false_eq_true, true_imp_iff, true_and, eq_comm]
  | cons e l ih =>
    rw [List.map_cons, List.nodup_cons] at hl
    -- the rounds that follow do not touch this entry
    have hne : ∀ e' ∈ l, e'.1 ≠ e.1 := fun e' he' heq => hl.1 (heq ▸ List.mem_map_of_mem he')
    rw [List.foldlM_cons, Option.bind_eq_bind, Option.bind_eq_some_iff]
    constructor
    · rintro ⟨m₁, hm₁, hrest⟩
      obtain ⟨v, hv, rfl⟩ := Option.map_eq_some_iff.mp hm₁
      obtain ⟨hl', hother⟩ := (ih hl.2).mp hrest
      constructor
      · intro e' he'
        rcases List.mem_cons.mp he' with rfl | he'
        · rw [hother _ hl.1, Function.update_self, hv]
        · rw [← hl' e' he', Function.update_of_ne (hne e' he')]
      · intro k hk
        rw [List.map_cons, List.mem_cons, not_or] at hk
        rw [hother k hk.2, Function.update_of_ne hk.1]
    · rintro ⟨hl', hother⟩
      refine ⟨_, by rw [updateAt, atKey, hl' e List.mem_cons_self, Option.map_some],
        (ih hl.2).mpr ⟨?_, ?_⟩⟩
      · intro e' he'
        rw [Function.update_of_ne (hne e' he'), hl' e' (List.mem_cons_of_mem _ he')]
      · intro k hk
        rcases eq_or_ne k e.1 with rfl | hke
        · rw [Function.update_self]
        · rw [Function.update_of_ne hke]
          exact hother k (by simp only [List.map_cons, List.mem_cons, hke, hk, or_self,
            not_false_eq_true])

/-- It is enough that each round succeeds on its own. -/
theorem exists_foldlM_updateAt {f : α → ν → Option ν} {l : List (κ × α)}
    (hl : (l.map Prod.fst).Nodup) {m : κ → ν} (h : ∀ e ∈ l, ∃ v, f e.2 (m e.1) = some v) :
    ∃ m', l.foldlM (updateAt f) m = some m' := by
  induction l generalizing m with
  | nil => exact ⟨m, rfl⟩
  | cons e l ih =>
    rw [List.map_cons, List.nodup_cons] at hl
    obtain ⟨v, hv⟩ := h e List.mem_cons_self
    have hrest : ∀ e' ∈ l, ∃ v', f e'.2 (Function.update m e.1 v e'.1) = some v' := by
      intro e' he'
      have hne : e'.1 ≠ e.1 := fun heq => hl.1 (heq ▸ List.mem_map_of_mem he')
      rw [Function.update_of_ne hne]
      exact h e' (List.mem_cons_of_mem _ he')
    obtain ⟨m', hm'⟩ := ih hl.2 hrest
    refine ⟨m', ?_⟩
    rw [List.foldlM_cons, updateAt, atKey, hv, Option.map_some]
    exact hm'

end Store

end EyeQ.Machine
