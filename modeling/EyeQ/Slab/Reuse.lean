import Mathlib.Data.List.TakeWhile
import EyeQ.Slab.Basic
import EyeQ.Sum.Basic

/-!
# Memory that is handed out again

An allocator may hand out memory that has been freed (`Alloc.again`).  If links still lead to an
object in it, writing the links of the new object diverts them.  `relinkHead` is `hlist_add_head` of
a node that chains may still lead to: a chain that led to it goes on as the chain it is linked into,
and `reloop` says which chains lead back into themselves after that.  `relinkTail` is
`list_add_tail` of a node that the list may still lead to: what came after it is lost.  For a node
that nothing leads to they are `addHead` and the addition of a last element.

`entries` is the list of what is on the chains of a table, in the order of a walk over the table;
`countP_write` says what a write to one object does to a count over it, as `sum_map_write` does for
a sum.
-/

namespace EyeQ

/-! ### Allocation -/

/-- What an allocator returns. -/
inductive Alloc where
  | fail
  /-- Memory that has not been handed out before. -/
  | fresh
  /-- The memory of an object that was freed; if there was no such object, fresh memory. -/
  | again (a : ℕ)
deriving DecidableEq

/-- The address, given the first one that was not handed out and those that were freed. -/
def Alloc.addr (brk : ℕ) (freed : List ℕ) : Alloc → Option ℕ
  | .fail => none
  | .fresh => some brk
  | .again a => if a ∈ freed then some a else some brk

theorem Alloc.eq_brk_or_mem {brk a : ℕ} {freed : List ℕ} {alloc : Alloc}
    (h : alloc.addr brk freed = some a) : a = brk ∨ a ∈ freed := by
  cases alloc with
  | fail => exact nomatch h
  | fresh => exact Or.inl (Option.some.inj h).symm
  | again a' =>
    rw [Alloc.addr] at h
    split_ifs at h with hmem
    · exact Or.inr (Option.some.inj h ▸ hmem)
    · exact Or.inl (Option.some.inj h).symm

/-! ### Chains -/

section Chains

variable {B : Type*} [DecidableEq B] (chain : B → List ℕ) (loop : B → Bool)

/-- `hlist_add_head` of `a` on chain `b`. -/
def relinkHead (b : B) (a : ℕ) : B → List ℕ :=
  let head := a :: (chain b).takeWhile (· ≠ a)
  fun b' =>
    if b' = b then head
    else if a ∈ chain b' then (chain b').takeWhile (· ≠ a) ++ head
    else chain b'

/-- The chains that lead back into themselves once `a` has been linked on chain `b`. -/
def reloop (b : B) (a : ℕ) : B → Bool := fun b' =>
  if b' = b ∨ a ∈ chain b' then loop b || decide (a ∈ chain b) else loop b'

variable {chain loop} {b b' : B} {a x : ℕ}

theorem takeWhile_ne_of_notMem {l : List ℕ} (h : a ∉ l) : l.takeWhile (· ≠ a) = l := by
  rw [List.takeWhile_eq_self_iff]
  intro x hx
  exact decide_eq_true fun hxa => h (hxa ▸ hx)

theorem relinkHead_of_fresh (h : ∀ b, a ∉ chain b) : relinkHead chain b a = addHead chain b a := by
  funext b'
  simp only [relinkHead, addHead, Function.update_apply,
    takeWhile_ne_of_notMem (h _), if_neg (h b')]

/-- A chain that did not lead to `a` keeps what it has. -/
theorem mem_relinkHead_of_notMem (ha : a ∉ chain b') (hx : x ∈ chain b') :
    x ∈ relinkHead chain b a b' := by
  unfold relinkHead
  split_ifs with hb
  · subst hb
    rw [takeWhile_ne_of_notMem ha]
    exact List.mem_cons_of_mem _ hx
  · exact hx

theorem self_mem_relinkHead (h : b' = b ∨ a ∈ chain b') : a ∈ relinkHead chain b a b' := by
  unfold relinkHead
  split_ifs with hb hmem
  · exact List.mem_cons_self ..
  · exact List.mem_append_right _ (List.mem_cons_self ..)
  · exact absurd h (not_or.2 ⟨hb, hmem⟩)

/-- Nothing else gets on a chain. -/
theorem mem_of_mem_relinkHead (h : x ∈ relinkHead chain b a b') : x = a ∨ ∃ b, x ∈ chain b := by
  have hhead : x ∈ a :: (chain b).takeWhile (· ≠ a) → x = a ∨ ∃ b, x ∈ chain b := by
    intro hx
    rcases List.mem_cons.1 hx with rfl | hx
    · exact Or.inl rfl
    · exact Or.inr ⟨b, (List.takeWhile_prefix _).subset hx⟩
  unfold relinkHead at h
  split_ifs at h
  · exact hhead h
  · rcases List.mem_append.1 h with hx | hx
    · exact Or.inr ⟨b', (List.takeWhile_prefix _).subset hx⟩
    · exact hhead hx
  · exact Or.inr ⟨b', h⟩

theorem reloop_of_notMem (ha : a ∉ chain b') : reloop chain loop b a b' = loop b' := by
  unfold reloop
  split_ifs with h
  · obtain rfl := h.resolve_right ha
    rw [decide_eq_false ha, Bool.or_false]
  · rfl

theorem reloop_of_mem (ha : a ∈ chain b) : reloop chain loop b a b = true := by
  rw [reloop, if_pos (Or.inl rfl), decide_eq_true ha, Bool.or_true]

end Chains

/-! ### Lists -/

/-- `list_add_tail` of `a`, unless `a` is last: then it is linked to itself. -/
def relinkTail (l : List ℕ) (a : ℕ) : List ℕ := l.takeWhile (· ≠ a) ++ [a]

theorem relinkTail_of_notMem {l : List ℕ} {a : ℕ} (h : a ∉ l) : relinkTail l a = l ++ [a] := by
  rw [relinkTail, takeWhile_ne_of_notMem h]

/-! ### What is on a table -/

section Entries

variable {B : Type*} {buckets : List B} {chain : B → List ℕ} {home : ℕ → B}

/-- The indexes of an array of `n` chains. -/
def bucketIndexes (n : ℕ) : List UInt32 := (List.range n).map UInt32.ofNat

theorem bucketIndexes_nodup {n : ℕ} (hn : n ≤ 2 ^ 32) : (bucketIndexes n).Nodup := by
  apply List.Nodup.map_on _ List.nodup_range
  have htoNat : ∀ i ∈ List.range n, (UInt32.ofNat i).toNat = i :=
    fun i hi => UInt32.toNat_ofNat_of_lt' ((List.mem_range.1 hi).trans_le hn)
  intro i hi j hj hij
  rw [← htoNat i hi, ← htoNat j hj, hij]

theorem mem_bucketIndexes {n : ℕ} {b : UInt32} (h : b.toNat < n) : b ∈ bucketIndexes n :=
  List.mem_map.2 ⟨_, List.mem_range.2 h, UInt32.ofNat_toNat⟩

/-- What is on the chains of the `buckets`. -/
def entries (buckets : List B) (chain : B → List ℕ) : List ℕ := buckets.flatMap chain

theorem Chained.mem_entries (h : Chained chain home) (hhome : ∀ a, home a ∈ buckets) {a : ℕ} :
    a ∈ entries buckets chain ↔ ∃ b, a ∈ chain b := by
  rw [entries, List.mem_flatMap]
  constructor
  · rintro ⟨b, -, ha⟩
    exact ⟨b, ha⟩
  · rintro ⟨b, ha⟩
    exact ⟨b, h.home_eq b a ha ▸ hhome a, ha⟩

theorem Chained.entries_nodup (h : Chained chain home) (hbuckets : buckets.Nodup) :
    (entries buckets chain).Nodup := by
  rw [entries, List.nodup_flatMap]
  refine ⟨fun b _ => h.nodup b, hbuckets.imp fun {b b'} hne => ?_⟩
  intro a ha ha'
  exact hne ((h.home_eq b a ha).symm.trans (h.home_eq b' a ha'))

theorem entries_addHead [DecidableEq B] {b : B} (hbuckets : buckets.Nodup)
    (hb : b ∈ buckets) (a : ℕ) :
    (entries buckets (addHead chain b a)).Perm (a :: entries buckets chain) := by
  induction buckets with
  | nil => exact absurd hb List.not_mem_nil
  | cons b' bs ih =>
    obtain ⟨hb', hbs⟩ := List.nodup_cons.1 hbuckets
    simp only [entries, List.flatMap_cons] at ih ⊢
    by_cases heq : b' = b
    · subst heq
      -- the other chains are as they were
      have hrest : bs.flatMap (addHead chain b' a) = bs.flatMap chain := by
        apply List.flatMap_congr
        intro x hx
        exact addHead_of_ne _ _ fun hxb => hb' (hxb ▸ hx)
      rw [addHead_self, hrest, List.cons_append]
    · rw [addHead_of_ne _ _ heq]
      have hmem : b ∈ bs := (List.mem_cons.1 hb).resolve_left (Ne.symm heq)
      exact ((ih hbs hmem).append_left _).trans List.perm_middle

theorem Chained.entries_unlink (h : Chained chain home) (hbuckets : buckets.Nodup) {b : B} {a : ℕ}
    (hb : b ∈ buckets) (ha : a ∈ chain b) :
    (entries buckets chain).Perm (a :: entries buckets (EyeQ.unlink chain a)) := by
  have hgone : a ∉ entries buckets (EyeQ.unlink chain a) := by
    rw [entries, List.mem_flatMap]
    rintro ⟨b', -, hmem⟩
    exact (h.mem_unlink.1 hmem).1 rfl
  have hnodup := (h.unlink a).entries_nodup hbuckets
  rw [List.perm_ext_iff_of_nodup (h.entries_nodup hbuckets) (List.nodup_cons.2 ⟨hgone, hnodup⟩)]
  intro x
  simp only [entries, List.mem_cons, List.mem_flatMap, h.mem_unlink]
  constructor
  · rintro ⟨b', hb', hx⟩
    by_cases hxa : x = a
    · exact Or.inl hxa
    · exact Or.inr ⟨b', hb', hxa, hx⟩
  · rintro (rfl | ⟨b', hb', -, hx⟩)
    · exact ⟨b, hb, ha⟩
    · exact ⟨b', hb', hx⟩

/-- A write to one object moves the count by the difference. -/
theorem countP_write {l : List ℕ} {k : ℕ} {g f : ℕ → Bool} (hl : l.Nodup) (hk : k ∈ l)
    (hf : ∀ x, x ≠ k → f x = g x) :
    l.countP f + (if g k then 1 else 0) = l.countP g + (if f k then 1 else 0) := by
  have hperm := List.perm_cons_erase hk
  have hrest : (l.erase k).countP f = (l.erase k).countP g := by
    apply List.countP_congr
    intro x hx
    rw [hf x fun hxk => hl.not_mem_erase (hxk ▸ hx)]
  rw [hperm.countP_eq f, hperm.countP_eq g, List.countP_cons, List.countP_cons, hrest,
    Nat.add_right_comm]

end Entries

end EyeQ
