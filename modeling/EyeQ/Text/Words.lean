import Mathlib.Data.List.Basic
import Mathlib.Data.List.TakeWhile

/-!
# Words

The words of a text are its longest parts without a separator.

* `words_append`: a word and what follows it.
* `words_eq_cons`: where the first word stands.
-/

namespace EyeQ.Text

variable {α : Type} {sep : α → Bool}

/-- The words of a text. -/
def words (sep : α → Bool) (s : List α) : List (List α) :=
  (s.splitOnP sep).filter (! ·.isEmpty)

@[simp] theorem words_nil : words sep [] = [] := by simp [words]

theorem words_cons_of_sep {c : α} (hc : sep c = true) (s : List α) :
    words sep (c :: s) = words sep s := by
  simp [words, List.splitOnP_cons_eq_if_modifyHead, hc]

theorem words_append_of_sep {gap : List α} (hgap : ∀ c ∈ gap, sep c = true) (s : List α) :
    words sep (gap ++ s) = words sep s := by
  induction gap with
  | nil => rfl
  | cons c gap ih =>
    rw [List.cons_append, words_cons_of_sep (hgap c List.mem_cons_self)]
    exact ih fun c' hc' => hgap c' (List.mem_cons_of_mem _ hc')

/-- A word ends at a separator, or where the text ends. -/
theorem words_append {w rest : List α} (hne : w ≠ []) (hw : ∀ c ∈ w, sep c = false)
    (hrest : ∀ c ∈ rest.head?, sep c = true) : words sep (w ++ rest) = w :: words sep rest := by
  have hw' : (! w.isEmpty) = true := by simpa using hne
  cases rest with
  | nil =>
    rw [List.append_nil, words_nil, words, List.splitOnP_eq_singleton hw]
    exact List.filter_cons_of_pos hw'
  | cons c rest =>
    have hc : sep c = true := hrest c rfl
    rw [words_cons_of_sep hc, words, List.splitOnP_append_cons_of_forall_mem hw _ hc]
    exact List.filter_cons_of_pos hw'

/-- The first word stands behind separators. -/
theorem words_eq_cons {s w : List α} {ws : List (List α)} (h : words sep s = w :: ws) :
    ∃ gap rest, s = gap ++ (w ++ rest) ∧ (∀ c ∈ gap, sep c = true) ∧ w ≠ [] ∧
    (∀ c ∈ w, sep c = false) ∧
      (∀ c ∈ rest.head?, sep c = true) ∧ words sep rest = ws := by
  have hgap : ∀ c ∈ s.takeWhile sep, sep c = true := fun c hc => List.mem_takeWhile_imp hc
  have hsplit : s.takeWhile sep ++ s.dropWhile sep = s := List.takeWhile_append_dropWhile
  have hwords : words sep (s.dropWhile sep) = w :: ws := by
    rw [← words_append_of_sep hgap, hsplit, h]
  cases htail : s.dropWhile sep with
  | nil =>
    rw [htail, words_nil] at hwords
    exact nomatch hwords
  | cons c t =>
    have hc : sep c = false := by
      have hhead := List.head?_dropWhile_not sep s
      rw [htail] at hhead
      simpa using hhead
    let w' := (c :: t).takeWhile (! sep ·)
    let rest := (c :: t).dropWhile (! sep ·)
    have hne : w' ≠ [] := by simp [w', hc]
    have hw' : ∀ c ∈ w', sep c = false := fun c hc => by simpa using List.mem_takeWhile_imp hc
    have hrest : ∀ c ∈ rest.head?, sep c = true := by
      intro x hx
      have hhead := List.head?_dropWhile_not (! sep ·) (c :: t)
      rw [show ((c :: t).dropWhile (! sep ·)).head? = some x from hx] at hhead
      simpa using hhead
    have htext : w' ++ rest = c :: t := List.takeWhile_append_dropWhile
    rw [htail, ← htext, words_append hne hw' hrest] at hwords
    obtain ⟨rfl, rfl⟩ := List.cons.inj hwords
    exact ⟨s.takeWhile sep, rest, by rw [htext, ← htail, hsplit], hgap, hne, hw', hrest, rfl⟩

/-! ### Single separators -/

section

variable [DecidableEq α] {a : List α} {c : α}

theorem beq_eq_false_of_notMem (ha : c ∉ a) : ∀ x ∈ a, (x == c) = false := by
  intro x hx
  rw [beq_eq_false_iff_ne]
  rintro rfl
  exact ha hx

theorem splitOn_append_cons (ha : c ∉ a) (rest : List α) :
    (a ++ c :: rest).splitOn c = a :: rest.splitOn c :=
  List.splitOnP_append_cons_of_forall_mem (beq_eq_false_of_notMem ha) c (by simp) rest

theorem splitOn_of_notMem (ha : c ∉ a) : a.splitOn c = [a] :=
  List.splitOnP_eq_singleton (beq_eq_false_of_notMem ha)

end

end EyeQ.Text
