import Mathlib.Data.List.Basic

/-!
# Cursors of intrusive linked lists

The loop macros of an intrusive list leave their cursor readable after the loop, and code that
walks a list while changing it depends on where the cursor stands.  A list is its entries in order;
a cursor is an `Option`, where `none` is the list head itself (or a null pointer, for the singly
headed lists of hash chains).

* `next l pos`: the entry after `pos` in `l`, as the `pos->next` of a circular list gives it.
* `scan p l cur`: the cursor after `hlist_for_each_entry(cur, l) if (p(cur)) break;`.  It starts
  out as `cur`, and when no entry satisfies `p` it is left on the last entry visited.
-/

namespace EyeQ.Klist

variable {α : Type*}

/-! ### The successor in a circular list -/

section Next

variable [DecidableEq α]

/-- The cursor after `pos`: from the head the first entry, from an entry the one behind it, and
from the last entry the head again. -/
def next (l : List α) : Option α → Option α
  | none => l.head?
  | some a => (l.dropWhile (· ≠ a)).tail.head?

theorem mem_of_next_eq_some {l : List α} {pos : Option α} {a : α} (h : next l pos = some a) :
    a ∈ l := by
  cases pos with
  | none => exact List.mem_of_mem_head? h
  | some b =>
    exact (List.dropWhile_sublist _).subset (List.mem_of_mem_tail (List.mem_of_mem_head? h))

end Next

/-! ### Scanning a hash chain -/

/-- The cursor after a scan of `l` that breaks at the first entry satisfying `p`. -/
def scan (p : α → Bool) : List α → Option α → Option α
  | [], cur => cur
  | x :: l, _ => if p x then some x else scan p l (some x)

theorem scan_nil (p : α → Bool) (cur : Option α) : scan p [] cur = cur := rfl

/-- A scan that finds an entry stops at the first one. -/
theorem scan_eq_find? {p : α → Bool} {l : List α} (h : ∃ x ∈ l, p x) (cur : Option α) :
    scan p l cur = l.find? p := by
  induction l generalizing cur with
  | nil => simp at h
  | cons x l ih =>
    rw [scan, List.find?_cons]
    by_cases hx : p x
    · simp [hx]
    · obtain ⟨y, hy, hpy⟩ := h
      rcases List.mem_cons.mp hy with rfl | hmem
      · exact absurd hpy hx
      · simp only [hx, Bool.false_eq_true, ↓reduceIte]
        exact ih ⟨y, hmem, hpy⟩ (some x)

/-- A scan that finds nothing leaves the cursor on the last entry, which is not a match. -/
theorem scan_of_forall_not {p : α → Bool} {l : List α} (hne : l ≠ []) (h : ∀ x ∈ l, ¬ p x)
    (cur : Option α) : ∃ x ∈ l, scan p l cur = some x ∧ ¬ p x := by
  induction l generalizing cur with
  | nil => exact absurd rfl hne
  | cons x l ih =>
    have hx := h x (List.mem_cons_self ..)
    rw [scan]
    simp only [hx, Bool.false_eq_true, ↓reduceIte]
    by_cases hl : l = []
    · subst hl
      exact ⟨x, List.mem_cons_self .., rfl, hx⟩
    · obtain ⟨y, hy, heq, hpy⟩ := ih hl (fun z hz => h z (List.mem_cons_of_mem _ hz)) (some x)
      exact ⟨y, List.mem_cons_of_mem _ hy, heq, hpy⟩

/-- A scan ends with a null cursor only on an empty chain. -/
theorem scan_eq_none_iff {p : α → Bool} {l : List α} : scan p l none = none ↔ l = [] := by
  constructor
  · intro hscan
    by_contra hne
    by_cases h : ∃ x ∈ l, p x
    · rw [scan_eq_find? h, List.find?_eq_none] at hscan
      obtain ⟨x, hx, hp⟩ := h
      exact hscan x hx hp
    · obtain ⟨x, -, heq, -⟩ := scan_of_forall_not hne (by simpa using h) none
      rw [heq] at hscan
      exact absurd hscan (by simp)
  · rintro rfl
    exact scan_nil p none

end EyeQ.Klist
