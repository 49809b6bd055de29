import Mathlib.Data.List.Induction
import Mathlib.Data.List.Nodup
import Mathlib.Data.List.Perm.Basic
import Mathlib.Data.Option.Basic

/-!
# Entries with keys

A list of entries, each with a key.  `install` adds an entry unless its key is taken, and `edit`
changes the entry of a key if there is one.  `load` does both for each of a list of entries;
`load_eq_some_iff` says when that succeeds and what it gives.

The order of the entries does not matter (`rel_install`, `rel_edit`).  `map_update` is what a write
to one object of a table does to the entries that the table stands for.
-/

namespace EyeQ.Keyed

variable {α β κ : Type} {key : α → κ}

/-- The keys in use. -/
def keys (key : α → κ) (l : List α) : List κ := l.map key

theorem mem_keys_of_perm {l l' : List α} (h : l.Perm l') {k : κ} : k ∈ keys key l ↔
    k ∈ keys key l' :=
  (h.map key).mem_iff

variable [DecidableEq κ]

/-- Add an entry. -/
def install (key : α → κ) (a : α) (l : List α) : Option (List α) :=
  if key a ∈ keys key l then none else some (l ++ [a])

/-- Change the entry of a key. -/
def edit (key : α → κ) (k : κ) (f : α → α) (l : List α) : Option (List α) :=
  if k ∈ keys key l then some (l.map fun a => if key a = k then f a else a) else none

/-! ### The order does not matter -/

theorem rel_install {l l' : List α} (h : l.Perm l') (a : α) :
    Option.Rel List.Perm (install key a l) (install key a l') := by
  unfold install
  by_cases ha : key a ∈ keys key l
  · rw [if_pos ha, if_pos ((mem_keys_of_perm h).mp ha)]
    exact .none
  · rw [if_neg ha, if_neg (mt (mem_keys_of_perm h).mpr ha)]
    exact .some (h.append_right [a])

theorem rel_edit {l l' : List α} (h : l.Perm l') (k : κ) (f : α → α) :
    Option.Rel List.Perm (edit key k f l) (edit key k f l') := by
  unfold edit
  by_cases hk : k ∈ keys key l
  · rw [if_pos hk, if_pos ((mem_keys_of_perm h).mp hk)]
    exact .some (h.map _)
  · rw [if_neg hk, if_neg (mt (mem_keys_of_perm h).mpr hk)]
    exact .none

/-! ### Keys stay different -/

theorem keys_edit {k : κ} {f : α → α} {l l' : List α} (h : edit key k f l = some l')
    (hf : ∀ a, key (f a) = key a) : keys key l' = keys key l := by
  unfold edit at h
  split_ifs at h
  rw [← Option.some.inj h, keys, keys, List.map_map]
  refine List.map_congr_left fun a _ => ?_
  rw [Function.comp_apply]
  split_ifs
  · exact hf a
  · rfl

theorem nodup_install {a : α} {l l' : List α} (hl : (keys key l).Nodup)
    (h : install key a l = some l') :
    (keys key l').Nodup := by
  unfold install at h
  split_ifs at h with ha
  rw [← Option.some.inj h, keys, List.map_append, List.map_singleton]
  refine List.nodup_append.mpr ⟨hl, List.nodup_singleton _, ?_⟩
  rintro k hk k' hk' rfl
  rw [List.mem_singleton] at hk'
  exact ha (hk' ▸ hk)

/-! ### Installing many entries -/

/-- To install an entry and to change it is to install the changed entry. -/
theorem install_bind_edit {a : α} {f : α → α} (hf : key (f a) = key a) (l : List α) :
    (install key a l).bind (edit key (key a) f) = install key (f a) l := by
  unfold install
  rw [hf]
  split_ifs with ha
  · rfl
  · have hmem : key a ∈ keys key (l ++ [a]) := by
      rw [keys, List.map_append, List.map_singleton]
      exact List.mem_append_right _ (List.mem_singleton.mpr rfl)
    have hold : ∀ b ∈ l, (if key b = key a then f b else b) = b := by
      intro b hb
      exact if_neg fun heq : key b = key a => ha (heq ▸ List.mem_map_of_mem hb)
    rw [Option.bind_some, edit, if_pos hmem, List.map_append,
      List.map_congr_left hold, List.map_id', List.map_singleton, if_pos rfl]

/-- Add the entries for `bs`, which have to pass a test, one after the other. -/
def load (key : α → κ) (ok : β → Prop) [DecidablePred ok] (g : β → α) (bs : List β) (l : List α) :
    Option (List α) :=
  bs.foldlM (fun l b => if ok b then install key (g b) l else none) l

theorem load_eq_some_iff {ok : β → Prop} [DecidablePred ok] {g : β → α} {bs : List β} {l : List α} :
    load key ok g bs [] = some l ↔
    (keys key (bs.map g)).Nodup ∧ (∀ b ∈ bs, ok b) ∧ l = bs.map g := by
  induction bs using List.reverseRecOn generalizing l with
  | nil => simp [load, keys, eq_comm]
  | append_singleton bs b ih =>
    have hstep : load key ok g (bs ++ [b]) [] =
        (load key ok g bs []).bind fun l => if ok b then install key (g b) l else none := by
      simp only [load, List.foldlM_append, List.foldlM_cons, List.foldlM_nil, bind_pure,
        Option.bind_eq_bind]
    rw [hstep, Option.bind_eq_some_iff]
    simp only [ih, keys, List.map_append, List.map_singleton, List.nodup_append,
      List.nodup_singleton, List.mem_singleton, List.mem_append, or_imp, forall_and, forall_eq]
    constructor
    · rintro ⟨_, ⟨hnodup, hok, rfl⟩, h⟩
      split_ifs at h with hb
      rw [install] at h
      split_ifs at h with hmem
      refine ⟨⟨hnodup, trivial, ?_⟩, ⟨hok, hb⟩, (Option.some.inj h).symm⟩
      rintro k hk rfl
      exact hmem hk
    · rintro ⟨⟨hnodup, -, hne⟩, ⟨hok, hb⟩, rfl⟩
      refine ⟨bs.map g, ⟨hnodup, hok, rfl⟩, ?_⟩
      have hmem : key (g b) ∉ keys key (bs.map g) := fun hmem => hne _ hmem rfl
      rw [if_pos hb, install, if_neg hmem]

/-! ### Tables -/

/-- A write to the object at `x`, which is the one with key `k`. -/
theorem map_update {ι : Type} [DecidableEq ι] {xs : List ι} {objs : ι → β} {view : β → α}
    {x : ι} {o : β} {k : κ} {f : α → α} (hx : ∀ y ∈ xs, key (view (objs y)) = k ↔ y = x)
    (ho : view o = f (view (objs x))) :
    (xs.map fun y => view (Function.update objs x o y)) =
      (xs.map fun y => view (objs y)).map fun a => if key a = k then f a else a := by
  rw [List.map_map]
  refine List.map_congr_left fun y hy => ?_
  rw [Function.comp_apply]
  rcases eq_or_ne y x with rfl | hne
  · rw [Function.update_self, if_pos ((hx y hy).mpr rfl), ho]
  · rw [Function.update_of_ne hne, if_neg fun heq => hne ((hx y hy).mp heq)]

end EyeQ.Keyed
