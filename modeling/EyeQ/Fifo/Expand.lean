import Mathlib.Data.List.Flatten
import Mathlib.Data.List.Nodup

/-!
# Lines in which an item may be replaced by its parts

A line is a sequence of items that came in (`came`) and what is left of it, in order (`left`).
Items come in at the end.  At any place an item may be replaced by its parts, in the line and in the
record of what came in alike; of the parts that are put in the line some may get lost.

`expand a ys l` is `l` with `ys` in the place of `a`.  `Step` is one change of a line, and
`ordered_step` says what changes preserve: what is left is a subsequence of what came in, and
nothing is missing as long as no part was lost.
-/

namespace EyeQ.Fifo

variable {α : Type} [DecidableEq α]

/-! ### Replacing an item by its parts -/

/-- `l` with `ys` in the place of `a`. -/
def expand (a : α) (ys l : List α) : List α := l.flatMap fun x => if x = a then ys else [x]

variable {a : α} {ys l : List α}

@[simp] theorem expand_nil : expand a ys [] = [] := rfl

theorem expand_cons (x : α) : expand a ys (x :: l) = (if x = a then ys else [x]) ++ expand a ys l :=
  rfl

theorem expand_append (l' : List α) : expand a ys (l ++ l') = expand a ys l ++ expand a ys l' :=
  List.flatMap_append

theorem expand_of_notMem (ha : a ∉ l) : expand a ys l = l := by
  induction l with
  | nil => rfl
  | cons x l ih =>
    rw [List.mem_cons, not_or] at ha
    rw [expand_cons, if_neg (Ne.symm ha.1), ih ha.2]
    rfl

@[simp] theorem expand_singleton : expand a ys [a] = ys := by
  rw [expand_cons, if_pos rfl, expand_nil, List.append_nil]

/-- An item that is its own only part. -/
theorem expand_self : expand a [a] l = l := by
  induction l with
  | nil => rfl
  | cons x l ih =>
    rw [expand_cons, ih]
    split_ifs with hx
    · rw [hx]
      rfl
    · rfl

theorem mem_expand {x : α} : x ∈ expand a ys l ↔ (x ∈ l ∧ x ≠ a) ∨ (a ∈ l ∧ x ∈ ys) := by
  unfold expand
  rw [List.mem_flatMap]
  constructor
  · rintro ⟨z, hz, hx⟩
    split_ifs at hx with hza
    · subst hza
      exact Or.inr ⟨hz, hx⟩
    · rw [List.mem_singleton.mp hx]
      exact Or.inl ⟨hz, hza⟩
  · rintro (⟨hx, hxa⟩ | ⟨ha, hx⟩)
    · refine ⟨x, hx, ?_⟩
      rw [if_neg hxa]
      exact List.mem_singleton_self x
    · refine ⟨a, ha, ?_⟩
      rw [if_pos rfl]
      exact hx

/-- Some of the parts, in a part of the line. -/
theorem expand_sublist {kept l' : List α} (hkept : kept.Sublist ys) (hl : l'.Sublist l) :
    (expand a kept l').Sublist (expand a ys l) := by
  have hparts : (expand a kept l').Sublist (expand a ys l') := by
    refine List.Sublist.flatMap_right l' fun x _ => ?_
    split_ifs
    · exact hkept
    · exact List.Sublist.refl _
  exact hparts.trans (hl.flatMap _)

theorem nodup_expand (hl : l.Nodup) (hys : ys.Nodup) (hnew : ∀ y ∈ ys, y ∉ l) :
    (expand a ys l).Nodup := by
  induction l with
  | nil => exact List.nodup_nil
  | cons x l ih =>
    rw [List.nodup_cons] at hl
    have hnew' : ∀ y ∈ ys, y ∉ l := fun y hy hyl => hnew y hy (List.mem_cons_of_mem _ hyl)
    rw [expand_cons]
    by_cases hx : x = a
    · -- the item itself occurs only once
      subst hx
      rw [if_pos rfl, expand_of_notMem hl.1, List.nodup_append]
      refine ⟨hys, hl.2, fun y hy z hz hyz => ?_⟩
      exact hnew' y hy (hyz ▸ hz)
    · rw [if_neg hx, List.singleton_append, List.nodup_cons]
      refine ⟨fun hmem => ?_, ih hl.2 hnew'⟩
      rcases mem_expand.mp hmem with ⟨hxl, -⟩ | ⟨-, hxys⟩
      · exact hl.1 hxl
      · exact hnew x hxys (List.mem_cons_self ..)

/-! ### Lines -/

/-- What came in, and what is left of it. -/
structure Line (α : Type) where
  came : List α
  left : List α

/-- One change of a line.  `lossless` is whether all parts are put in the line. -/
inductive Step (lossless : Prop) (x x' : Line α) : Prop
  | idle (h : x' = x)
  | arrive (ys kept : List α) (hkept : kept.Sublist ys) (hall : lossless → kept = ys)
      (hcame : x'.came = x.came ++ ys) (hleft : x'.left = x.left ++ kept)
  | split (a : α) (ys kept : List α) (hkept : kept.Sublist ys) (hall : lossless → kept = ys)
      (hcame : x'.came = expand a ys x.came) (hleft : x'.left = expand a kept x.left)

/-- What is left is in order, and complete if nothing was lost. -/
structure Ordered (lossless : Prop) (x : Line α) : Prop where
  sublist : x.left.Sublist x.came
  all : lossless → x.left = x.came

theorem ordered_step {lossless : Prop} {x x' : Line α} (hstep : Step lossless x x')
    (h : Ordered lossless x) : Ordered lossless x' := by
  cases hstep with
  | idle hsame =>
    subst hsame
    exact h
  | arrive ys kept hkept hall hcame hleft =>
    constructor
    · rw [hcame, hleft]
      exact h.sublist.append hkept
    · intro hl
      rw [hcame, hleft, h.all hl, hall hl]
  | split a ys kept hkept hall hcame hleft =>
    constructor
    · rw [hcame, hleft]
      exact expand_sublist hkept h.sublist
    · intro hl
      rw [hcame, hleft, h.all hl, hall hl]

end EyeQ.Fifo
