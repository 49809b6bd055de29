import EyeQ.Klist.Cursor
import Mathlib.Data.List.TakeWhile

/-!
# Walking a list whose entries come back

A walk with `list_for_each_entry_safe` whose body takes the entry at the cursor off the list and may
put entries at its end is a rotation: the cursor is always on the first entry of the list, and the
look-ahead cursor on the second.

`Rotates first s served` is such a walk, from the state `s`, that stops before the first entry if
the second is `first`, and that has served the entries `served` when it ends.  Begun with the list
`qs`, at its first entry `first`, the walk is meant to make one round.  `Rotates.filter_eq_iff` says
when it serves each entry of `qs` once: what matters is what stands behind the last entry when its
turn comes, and which entries of `qs` come back first.
-/

namespace EyeQ.Klist

variable {α σ : Type*}

theorem next_cons_self [DecidableEq α] (x : α) (l : List α) : next (x :: l) (some x) = l.head? := by
  rw [next, List.dropWhile_cons_of_neg (by simp), List.tail_cons]

section Rotates

variable (list : σ → List α) (serve : α → σ → σ)

/-- A walk that serves the entries `served`. -/
inductive Rotates (first : α) : σ → List α → Prop
  /-- The second entry is the one at which the walk has begun. -/
  | turned {s : σ} {x : α} {l : List α} : list s = x :: first :: l → Rotates first s []
  /-- There is no second entry.  The look-ahead cursor is on the head of the list, whatever is
  added. -/
  | last {s : σ} {x : α} : list s = [x] → Rotates first s [x]
  | next {s : σ} {x y : α} {l served : List α} : list s = x :: y :: l → y ≠ first →
      Rotates first (serve x s) served → Rotates first s (x :: served)

/-- The state after all of `xs` have been served. -/
def serveAll (xs : List α) (s : σ) : σ := xs.foldl (fun s x => serve x s) s

variable [DecidableEq α]

/-- Of the entries of `qs` on the list, the first that comes is `first` itself, or `first` stands
behind it. -/
def TurnsAt (first : α) (qs l : List α) : Prop :=
  match l.dropWhile (· ∉ qs) with
  | [] => True
  | x :: rest => x = first ∨ rest.head? = some first

instance (first : α) (qs l : List α) : Decidable (TurnsAt first qs l) := by
  unfold TurnsAt
  split <;> infer_instance

/-- While `Inv` holds, an entry that is served leaves the front of the list and entries are added at
its end.  An entry that is not of `qs` adds nothing but itself. -/
structure Appends (qs : List α) (Inv : σ → Prop) : Prop where
  inv : ∀ {s x l}, Inv s → list s = x :: l → Inv (serve x s)
  list_serve : ∀ {s x l}, Inv s → list s = x :: l →
    ∃ added, list (serve x s) = l ++ added ∧ (x ∉ qs → ∀ y ∈ added, y = x)

end Rotates

/-! ### Which entry comes back first -/

section TurnsAt

variable [DecidableEq α] {first x : α} {qs l added : List α}

theorem turnsAt_cons_of_mem (hx : x ∈ qs) :
    TurnsAt first qs (x :: l) ↔ x = first ∨ l.head? = some first := by
  rw [TurnsAt, List.dropWhile_cons_of_neg (by simpa using hx)]

theorem turnsAt_cons_of_notMem (hx : x ∉ qs) : TurnsAt first qs (x :: l) ↔ TurnsAt first qs l := by
  rw [TurnsAt, List.dropWhile_cons_of_pos (by simpa using hx), TurnsAt]

/-- Entries that are not of `qs` change nothing at the end. -/
theorem turnsAt_append (hfirst : first ∈ qs) (hadded : ∀ y ∈ added, y ∉ qs) :
    TurnsAt first qs (l ++ added) ↔ TurnsAt first qs l := by
  induction l with
  | nil =>
    have hdrop : added.dropWhile (· ∉ qs) = [] := by
      rw [List.dropWhile_eq_nil_iff]
      simpa using hadded
    rw [List.nil_append, TurnsAt, hdrop, TurnsAt, List.dropWhile_nil]
  | cons x l ih =>
    rw [List.cons_append]
    by_cases hx : x ∈ qs
    · rw [turnsAt_cons_of_mem hx, turnsAt_cons_of_mem hx]
      cases l with
      | nil =>
        -- what is added is not `first`
        have hne : added.head? ≠ some first := by
          intro hhead
          exact hadded first (List.mem_of_head? hhead) hfirst
        simp [hne]
      | cons y l => simp
    · rw [turnsAt_cons_of_notMem hx, turnsAt_cons_of_notMem hx, ih]

end TurnsAt

/-! ### One round -/

section Round

variable {list : σ → List α} {serve : α → σ → σ} {qs : List α} {Inv : σ → Prop} {first : α} {s : σ}
  {served : List α}

/-- As long as entries come that are not `first`, they are served. -/
theorem Rotates.serves (ha : Appends list serve qs Inv) {y : α} :
    ∀ {xs b served : List α} {s : σ}, Inv s → list s = xs ++ y :: b →
      (∀ z ∈ (xs ++ [y]).tail, z ≠ first) → Rotates list serve first s served →
      ∃ served' b', served = xs ++ served' ∧ Inv (serveAll serve xs s) ∧
        list (serveAll serve xs s) = y :: b' ∧
        Rotates list serve first (serveAll serve xs s) served' := by
  intro xs
  induction xs with
  | nil =>
    intro b served s hinv hlist _ hrot
    exact ⟨served, b, rfl, hinv, hlist, hrot⟩
  | cons x xs ih =>
    intro b served s hinv hlist hfirst hrot
    rw [List.cons_append] at hlist
    obtain ⟨z, l, hzl⟩ : ∃ z l, xs ++ y :: b = z :: l := by
      cases xs <;> exact ⟨_, _, rfl⟩
    have hz : z ≠ first := by
      refine hfirst z ?_
      cases xs with
      | nil => simp_all
      | cons x' xs => simp_all
    cases hrot with
    | turned h =>
      rw [hlist, hzl] at h
      simp only [List.cons.injEq] at h
      exact absurd h.2.1 hz
    | last h =>
      rw [hlist, hzl] at h
      simp at h
    | next h _ hrot =>
      obtain rfl : x = _ := (List.cons.inj (hlist.symm.trans h)).1
      obtain ⟨added, hserve, -⟩ := ha.list_serve hinv hlist
      rw [List.append_assoc, List.cons_append] at hserve
      have htail : ∀ z ∈ (xs ++ [y]).tail, z ≠ first :=
        fun z hz => hfirst z (List.mem_of_mem_tail hz)
      obtain ⟨served', b', rfl, hinv', hlist', hrot'⟩ := ih (ha.inv hinv hlist) hserve htail hrot
      exact ⟨served', b', rfl, hinv', hlist', hrot'⟩

variable [DecidableEq α]

/-- A walk that does not begin at `first` serves no entry of `qs` exactly if it meets `first`
first. -/
theorem Rotates.forall_notMem_iff (ha : Appends list serve qs Inv) (hfirst : first ∈ qs)
    (hrot : Rotates list serve first s served) (hinv : Inv s)
    (hhead : (list s).head? ≠ some first) :
    (∀ x ∈ served, x ∉ qs) ↔ TurnsAt first qs (list s) := by
  induction hrot with
  | @turned s x l hlist =>
    refine iff_of_true (by simp) ?_
    rw [hlist]
    by_cases hx : x ∈ qs
    · rw [turnsAt_cons_of_mem hx]
      exact Or.inr rfl
    · rw [turnsAt_cons_of_notMem hx, turnsAt_cons_of_mem hfirst]
      exact Or.inl rfl
  | @last s x hlist =>
    rw [hlist] at hhead ⊢
    by_cases hx : x ∈ qs
    · rw [turnsAt_cons_of_mem hx]
      simpa [hx] using hhead
    · rw [turnsAt_cons_of_notMem hx]
      simp [hx, TurnsAt]
  | @next s x y l served hlist hy hrot ih =>
    rw [hlist] at hhead ⊢
    obtain ⟨added, hserve, hself⟩ := ha.list_serve hinv hlist
    by_cases hx : x ∈ qs
    · -- `x` is served once more, and neither is it `first` nor does `first` stand behind it
      rw [turnsAt_cons_of_mem hx]
      refine iff_of_false (fun h => h x List.mem_cons_self hx) ?_
      rintro (rfl | hnext)
      · exact hhead rfl
      · exact hy (Option.some.inj hnext)
    · have hadded : ∀ y ∈ added, y ∉ qs := by
        intro z hz
        rw [hself hx z hz]
        exact hx
      have hnext : (list (serve x s)).head? ≠ some first := by
        rw [hserve]
        simpa using hy
      rw [turnsAt_cons_of_notMem hx, ← turnsAt_append hfirst hadded, ← hserve,
        ← ih (ha.inv hinv hlist) hnext]
      simp [hx]

/-- A walk begun at the first entry of `qs` serves each entry of `qs` once, and in order, exactly if
nothing stands behind the last entry when its turn comes, or if it is not the first entry that
stands behind it and the walk then meets the first entry before any other. -/
theorem Rotates.filter_eq_iff (ha : Appends list serve qs Inv) (hnd : qs.Nodup) (hinv : Inv s)
    (hlist : list s = qs) (hqs : qs.head? = some first) (hrot : Rotates list serve first s served) :
    served.filter (· ∈ qs) = qs ↔
      (list (serveAll serve qs.dropLast s)).tail = [] ∨
      (list (serveAll serve qs.dropLast s)).tail.head? ≠ some first ∧
        TurnsAt first qs (list (serveAll serve qs s)) := by
  have hne : qs ≠ [] := by
    rintro rfl
    exact absurd hqs (by simp)
  have hfirst : first ∈ qs := List.mem_of_head? hqs
  obtain ⟨xs, y, hsplit⟩ : ∃ xs y, qs = xs ++ [y] :=
    ⟨qs.dropLast, qs.getLast hne, (List.dropLast_append_getLast hne).symm⟩
  have htail : ∀ z ∈ (xs ++ [y]).tail, z ≠ first := by
    rw [← hsplit]
    obtain ⟨l, rfl⟩ : ∃ l, qs = first :: l := by
      cases qs with
      | nil => exact absurd rfl hne
      | cons x l => exact ⟨l, by rw [Option.some.inj hqs]⟩
    rintro z hz rfl
    exact (List.nodup_cons.mp hnd).1 hz
  obtain ⟨served', b, rfl, hinv₁, hlist₁, hrot₁⟩ :=
    Rotates.serves ha (b := []) hinv (hlist.trans hsplit) htail hrot
  have hxs : xs.filter (· ∈ qs) = xs := by
    rw [List.filter_eq_self]
    intro x hx
    simp [hsplit, hx]
  have hy : y ∈ qs := by simp [hsplit]
  have hdrop : qs.dropLast = xs := by rw [hsplit, List.dropLast_concat]
  rw [hdrop, hlist₁, List.tail_cons, List.filter_append, hxs]
  cases hrot₁ with
  | turned h =>
    -- the walk stops before the last entry
    obtain ⟨rfl, rfl⟩ := List.cons.inj (hlist₁.symm.trans h)
    refine iff_of_false ?_ (by simp)
    rw [hsplit]
    simp
  | last h =>
    obtain ⟨rfl, rfl⟩ := List.cons.inj (hlist₁.symm.trans h)
    refine iff_of_true ?_ (Or.inl rfl)
    simp [hsplit]
  | @next _ _ a l served'' h hane hrot₂ =>
    obtain ⟨rfl, rfl⟩ := List.cons.inj (hlist₁.symm.trans h)
    -- the last entry is served, and the rest of the walk must serve none of `qs`
    obtain ⟨added, hserve, -⟩ := ha.list_serve hinv₁ hlist₁
    have hall : serveAll serve qs s = serve y (serveAll serve xs s) := by
      rw [hsplit, serveAll, List.foldl_append, List.foldl_cons, List.foldl_nil, serveAll]
    have hhead : (list (serve y (serveAll serve xs s))).head? ≠ some first := by
      rw [hserve]
      simpa using hane
    have hrest := hrot₂.forall_notMem_iff ha hfirst (ha.inv hinv₁ hlist₁) hhead
    rw [hall, ← hrest, List.filter_cons_of_pos (by simpa using hy)]
    constructor
    · intro heq
      refine Or.inr ⟨by simpa using hane, fun x hx hmem => ?_⟩
      have hnil : served''.filter (· ∈ qs) = [] := by
        have hlen := congrArg List.length heq
        rw [hsplit] at hlen
        rw [← List.length_eq_zero_iff, hsplit]
        simp only [List.length_append, List.length_cons, List.length_nil] at hlen
        omega
      rw [List.filter_eq_nil_iff] at hnil
      exact hnil x hx (by simpa using hmem)
    · rintro (h | ⟨-, hnone⟩)
      · exact absurd h (by simp)
      · have hnil : served''.filter (· ∈ qs) = [] := by
          rw [List.filter_eq_nil_iff]
          intro x hx
          simpa using hnone x hx
        rw [hnil]
        exact hsplit.symm

end Round

end EyeQ.Klist
