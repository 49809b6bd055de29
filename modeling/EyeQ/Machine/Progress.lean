import Mathlib.Order.Monotone.Basic

/-!
# Progress

`Φ n` is a measure of what is left to do at time `n` of an infinite run, and it never grows.

`exists_lt_of_rank` is the rule for progress under a fair schedule.  Something waits, with a rank;
when it is the turn of the one that serves it, the measure falls or the rank falls, and when it is
not its turn the measure falls or the rank stays.  If turns keep coming the measure falls sooner or
later.  `exists_forall_eq_zero` says where this leads to.
-/

namespace EyeQ.Machine

variable {Φ : ℕ → ℕ}

theorem exists_lt_of_rank (hanti : Antitone Φ) {W : ℕ → ℕ → Prop} {turn : ℕ → Prop}
    (hfair : ∀ n, ∃ m, n ≤ m ∧ turn m)
    (hstay : ∀ n i, W n i → ¬ turn n → Φ (n + 1) < Φ n ∨ W (n + 1) i)
    (hturn : ∀ n i, W n i → turn n → Φ (n + 1) < Φ n ∨ ∃ j, j < i ∧ W (n + 1) j) (n i : ℕ)
    (hwaits : W n i) : ∃ m, Φ m < Φ n := by
  induction i using Nat.strong_induction_on generalizing n with
  | _ i ih =>
    obtain ⟨m, hnm, hm⟩ := hfair n
    -- up to its turn, nothing happens to what waits
    have huntil : ∀ d, n + d ≤ m → (∃ m, Φ m < Φ n) ∨ ∃ j, j ≤ i ∧ W (n + d) j := by
      intro d
      induction d with
      | zero => exact fun _ => Or.inr ⟨i, Nat.le_refl i, hwaits⟩
      | succ d ihd =>
        intro hd
        rcases ihd (Nat.le_of_succ_le hd) with hdone | ⟨j, hj, hwait⟩
        · exact Or.inl hdone
        · have hle : Φ (n + d) ≤ Φ n := hanti (Nat.le_add_right n d)
          by_cases hturn' : turn (n + d)
          · rcases hturn _ _ hwait hturn' with hlt | ⟨j', hj', hwait'⟩
            · exact Or.inl ⟨n + d + 1, Nat.lt_of_lt_of_le hlt hle⟩
            · exact Or.inr ⟨j', Nat.le_trans (Nat.le_of_lt hj') hj, hwait'⟩
          · rcases hstay _ _ hwait hturn' with hlt | hwait'
            · exact Or.inl ⟨n + d + 1, Nat.lt_of_lt_of_le hlt hle⟩
            · exact Or.inr ⟨j, hj, hwait'⟩
    obtain ⟨d, rfl⟩ := Nat.exists_eq_add_of_le hnm
    rcases huntil d (Nat.le_refl _) with hdone | ⟨j, hj, hwait⟩
    · exact hdone
    · have hle : Φ (n + d) ≤ Φ n := hanti (Nat.le_add_right n d)
      rcases hturn _ _ hwait hm with hlt | ⟨j', hj', hwait'⟩
      · exact ⟨n + d + 1, Nat.lt_of_lt_of_le hlt hle⟩
      · obtain ⟨m', hm'⟩ := ih j' (Nat.lt_of_lt_of_le hj' hj) (n + d + 1) hwait'
        exact ⟨m', Nat.lt_of_lt_of_le hm' (hanti (Nat.le_add_right n (d + 1)))⟩

/-- A measure that does not rest above zero comes down to zero, and stays there. -/
theorem exists_forall_eq_zero (hanti : Antitone Φ) (hprogress : ∀ n, 0 < Φ n → ∃ m, Φ m < Φ n) :
    ∃ n, ∀ m, n ≤ m → Φ m = 0 := by
  have hdown : ∀ v n, Φ n = v → ∃ m, Φ m = 0 := by
    intro v
    induction v using Nat.strong_induction_on with
    | _ v ih =>
      intro n hn
      rcases Nat.eq_zero_or_pos v with rfl | hpos
      · exact ⟨n, hn⟩
      · obtain ⟨m, hm⟩ := hprogress n (hn ▸ hpos)
        exact ih (Φ m) (hn ▸ hm) m rfl
  obtain ⟨n, hn⟩ := hdown _ 0 rfl
  exact ⟨n, fun m hnm => Nat.eq_zero_of_le_zero (hn ▸ hanti hnm)⟩

end EyeQ.Machine
