import Mathlib.Data.List.Basic

/-!
# Reading a text line by line

`readlines` cuts a text behind every newline.  `Reads step text s t` says that a reader that takes a
step for each line gets from `s` to `t` over `text`, whatever follows; so what it does on a text
that is printed in parts is composed of what it does on the parts.

* `Reads.line`: one line.
* `Reads.append`, `Reads.flatMap`: one part after the other.
-/

namespace EyeQ.Text

/-! ### Lines -/

/-- The lines of a text, each with the newline that ends it. -/
def readlines : List Char → List (List Char)
  | [] => []
  | c :: s =>
    if c = '\n' then ['\n'] :: readlines s
    else match readlines s with
      | [] => [[c]]
      | line :: lines => (c :: line) :: lines

theorem readlines_append {line : List Char} (hline : '\n' ∉ line) (rest : List Char) :
    readlines (line ++ '\n' :: rest) = (line ++ ['\n']) :: readlines rest := by
  induction line with
  | nil => rfl
  | cons c line ih =>
    rw [List.mem_cons, not_or] at hline
    rw [List.cons_append, readlines, if_neg (Ne.symm hline.1), ih hline.2]
    rfl

/-! ### Readers -/

section

variable {σ α : Type} {step : σ → List Char → Option σ} {s t u : σ} {text text' : List Char}

/-- The reader gets from `s` to `t` over `text`. -/
def Reads (step : σ → List Char → Option σ) (text : List Char) (s t : σ) : Prop :=
  ∀ rest, (readlines (text ++ rest)).foldlM step s = (readlines rest).foldlM step t

theorem Reads.nil (s : σ) : Reads step [] s s := fun _ => rfl

theorem Reads.line {line : List Char} (hline : '\n' ∉ line)
    (hstep : step s (line ++ ['\n']) = some t) :
    Reads step (line ++ ['\n']) s t := by
  intro rest
  rw [List.append_assoc, List.singleton_append, readlines_append hline, List.foldlM_cons, hstep]
  rfl

theorem Reads.append (h : Reads step text s t) (h' : Reads step text' t u) :
    Reads step (text ++ text') s u := by
  intro rest
  rw [List.append_assoc, h, h']

/-- Parts that are printed in a loop are read in a loop. -/
theorem Reads.flatMap {f : α → List Char} {g : σ → α → σ} {l : List α} {P : σ → Prop}
    (hkeep : ∀ s, ∀ a ∈ l, P s → P (g s a)) (h : ∀ s, ∀ a ∈ l, P s → Reads step (f a) s (g s a))
    (hs : P s) :
    Reads step (l.flatMap f) s (l.foldl g s) := by
  induction l generalizing s with
  | nil => exact Reads.nil s
  | cons a l ih =>
    rw [List.flatMap_cons, List.foldl_cons]
    refine (h s a List.mem_cons_self hs).append (ih ?_ ?_ (hkeep s a List.mem_cons_self hs))
    · exact fun s b hb => hkeep s b (List.mem_cons_of_mem _ hb)
    · exact fun s b hb => h s b (List.mem_cons_of_mem _ hb)

/-- Over the whole text. -/
theorem Reads.eq (h : Reads step text s t) : (readlines text).foldlM step s = some t := by
  have hrest := h []
  rwa [List.append_nil] at hrest

/-- Parts that the reader does not look at. -/
def Skips (step : σ → List Char → Option σ) (text : List Char) : Prop := ∀ s, Reads step text s s

theorem Skips.append (h : Skips step text) (h' : Skips step text') : Skips step (text ++ text') :=
  fun s => (h s).append (h' s)

theorem Skips.flatMap {f : α → List Char} {l : List α} (h : ∀ a ∈ l, Skips step (f a)) :
    Skips step (l.flatMap f) := by
  induction l with
  | nil => exact Reads.nil
  | cons a l ih =>
    rw [List.flatMap_cons]
    exact (h a List.mem_cons_self).append (ih fun b hb => h b (List.mem_cons_of_mem _ hb))

end

/-! ### Fields -/

section

variable {α : Type} {sep : α → Bool}

/-- What stands between runs of separators; `gap` says that one has just been read. -/
def splitRuns (sep : α → Bool) (gap : Bool) : List α → List (List α)
  | [] => [[]]
  | c :: s =>
    if sep c then if gap then splitRuns sep true s else [] :: splitRuns sep true s
    else (splitRuns sep false s).modifyHead (c :: ·)

/-- A line of fields, each with what separates it from the next. -/
abbrev Row (α : Type) := List (List α × List α)

def Row.text (row : Row α) : List α := row.flatMap fun field => field.1 ++ field.2

theorem Row.text_cons (w gap : List α) (row : Row α) :
    Row.text ((w, gap) :: row) = w ++ (gap ++ Row.text row) := by
  rw [Row.text, List.flatMap_cons, List.append_assoc]
  rfl

@[simp] theorem Row.text_nil : Row.text ([] : Row α) = [] := rfl

/-- No field has a separator, and there is one behind every field. -/
def Row.Proper (sep : α → Bool) (row : Row α) : Prop :=
  ∀ field ∈ row, field.1 ≠ [] ∧ (∀ c ∈ field.1, sep c = false) ∧ field.2 ≠ [] ∧
  ∀ c ∈ field.2, sep c = true

theorem splitRuns_word {w : List α} (hne : w ≠ []) (hw : ∀ c ∈ w, sep c = false) {c : α}
    (hc : sep c = true) (gap : Bool) (s : List α) : splitRuns sep gap (w ++ c :: s) =
    w :: splitRuns sep true s := by
  induction w generalizing gap with
  | nil => exact absurd rfl hne
  | cons a w ih =>
    have ha : sep a = false := hw a List.mem_cons_self
    rw [List.cons_append, splitRuns, if_neg (by simp [ha])]
    cases w with
    | nil => simp [splitRuns, hc]
    | cons b w =>
      rw [ih (List.cons_ne_nil b w) (fun x hx => hw x (List.mem_cons_of_mem _ hx)) false]
      rfl

theorem splitRuns_gap {gap : List α} (hgap : ∀ c ∈ gap, sep c = true) (s : List α) :
    splitRuns sep true (gap ++ s) = splitRuns sep true s := by
  induction gap with
  | nil => rfl
  | cons c gap ih =>
    rw [List.cons_append, splitRuns, if_pos (hgap c List.mem_cons_self), if_pos rfl]
    exact ih fun x hx => hgap x (List.mem_cons_of_mem _ hx)

/-- The fields of a line, and the empty one behind the separator that ends it. -/
theorem splitRuns_row {row : Row α} (h : row.Proper sep) (gap : Bool) :
    splitRuns sep gap row.text = row.map Prod.fst ++ [[]] := by
  induction row generalizing gap with
  | nil => rfl
  | cons field row ih =>
    obtain ⟨hne, hw, hgapne, hgap⟩ := h field List.mem_cons_self
    obtain ⟨c, tail, htail⟩ := List.exists_cons_of_ne_nil hgapne
    rw [htail] at hgap
    have hc := hgap c List.mem_cons_self
    have htext : Row.text (field :: row) = field.1 ++ c :: (tail ++ Row.text row) := by
      rw [← List.cons_append, ← htail]
      exact Row.text_cons _ _ row
    rw [htext, splitRuns_word hne hw hc, splitRuns_gap fun x hx => hgap x
      (List.mem_cons_of_mem _ hx), ih fun f hf => h f (List.mem_cons_of_mem _ hf)]
    rfl

end

end EyeQ.Text
