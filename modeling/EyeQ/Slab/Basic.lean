import Mathlib.Data.List.Nodup
import Mathlib.Logic.Function.Basic

/-!
# Hash chains and slabs

Objects are known by their addresses; `field_update` is about a write to one of them.  A hash table
is a family of chains of addresses; `addHead` and `unlink` are the two ways to change it.  `Chained
chain home` says that no chain has an address twice and that an address is only on the chain `home`
assigns to it.  `Chained.addHead`, `Chained.unlink` and `Chained.congr` are its rules.

A slab is a table whose objects are preallocated: addresses are handed out in order, those below
`brk` exist, and an object waits on a list of free ones until it is taken and linked on a chain,
where it stays.  `Slab free chain home brk` says that every object is in exactly one of these
places, once.  Its rules are `Slab.empty`, `Slab.grow` (one more free object), `Slab.take` (the
first free object moves to a chain) and `Slab.congr`.
-/

namespace EyeQ

variable {B : Type*}

/-! ### Writes -/

/-- A write that leaves a field of one object as it was leaves that field of every object. -/
theorem field_update {ι α β : Type*} [DecidableEq ι] (field : α → β) (mem : ι → α) {a : ι} {x : α}
    (h : field x = field (mem a)) (a' : ι) :
    field (Function.update mem a x a') = field (mem a') := by
  rw [Function.update_apply]
  split_ifs with ha
  · rw [h, ha]
  · rfl

/-! ### Chains -/

/-- `hlist_del`: take `a` off the chain it is on. -/
def unlink (chain : B → List ℕ) (a : ℕ) : B → List ℕ := fun b => (chain b).erase a

/-- Every address is on the chain of its home only, once. -/
structure Chained (chain : B → List ℕ) (home : ℕ → B) : Prop where
  nodup : ∀ b, (chain b).Nodup
  home_eq : ∀ b, ∀ a ∈ chain b, home a = b

section AddHead

variable [DecidableEq B]

/-- `hlist_add_head`: link `a` at the head of chain `b`. -/
def addHead (chain : B → List ℕ) (b : B) (a : ℕ) : B → List ℕ :=
  Function.update chain b (a :: chain b)

theorem addHead_self (chain : B → List ℕ) (b : B) (a : ℕ) : addHead chain b a b = a :: chain b :=
  Function.update_self ..

theorem addHead_of_ne (chain : B → List ℕ) {b b' : B} (a : ℕ) (hb : b' ≠ b) :
    addHead chain b a b' = chain b' :=
  Function.update_of_ne hb ..

theorem mem_addHead {chain : B → List ℕ} {b b' : B} {a a' : ℕ} :
    a' ∈ addHead chain b a b' ↔ (a' = a ∧ b' = b) ∨ a' ∈ chain b' := by
  by_cases hb : b' = b
  · subst hb
    rw [addHead_self, List.mem_cons]
    simp
  · rw [addHead_of_ne _ _ hb]
    simp [hb]

end AddHead

namespace Chained

variable {chain : B → List ℕ} {home home' : ℕ → B}

theorem empty (home : ℕ → B) : Chained (fun _ => []) home where
  nodup := fun _ => List.nodup_nil
  home_eq := fun _ _ h => absurd h List.not_mem_nil

/-- Only the homes of the linked addresses matter. -/
theorem congr (h : Chained chain home) (heq : ∀ b, ∀ a ∈ chain b, home' a = home a) :
    Chained chain home' :=
  { h with home_eq := fun b a ha => (heq b a ha).trans (h.home_eq b a ha) }

/-- An address that is on no chain may be linked, on the chain that is its home from now on. -/
theorem addHead [DecidableEq B] {a : ℕ} {b : B} (h : Chained chain home)
    (hfresh : ∀ b, a ∉ chain b) (hb : home' a = b) (heq : ∀ a', a' ≠ a → home' a' = home a') :
    Chained (addHead chain b a) home' where
  nodup := by
    intro b'
    by_cases hbb : b' = b
    · subst hbb
      rw [addHead_self]
      exact List.nodup_cons.2 ⟨hfresh b', h.nodup b'⟩
    · rw [addHead_of_ne _ _ hbb]
      exact h.nodup b'
  home_eq := by
    intro b' a' hmem
    rcases mem_addHead.1 hmem with ⟨rfl, rfl⟩ | hold
    · exact hb
    · have hne : a' ≠ a := fun he => hfresh b' (he ▸ hold)
      rw [heq a' hne, h.home_eq b' a' hold]

theorem mem_unlink (h : Chained chain home) {a a' : ℕ} {b : B} :
    a' ∈ unlink chain a b ↔ a' ≠ a ∧ a' ∈ chain b :=
  (h.nodup b).mem_erase_iff

theorem unlink (h : Chained chain home) (a : ℕ) : Chained (unlink chain a) home where
  nodup := fun b => (h.nodup b).erase a
  home_eq := fun b a' ha' => h.home_eq b a' (h.mem_unlink.1 ha').2

end Chained

/-! ### Slabs -/

/-- Every object below `brk` is on the free list or on its chain, and nowhere else. -/
structure Slab (free : List ℕ) (chain : B → List ℕ) (home : ℕ → B) (brk : ℕ) : Prop where
  free_nodup : free.Nodup
  chained : Chained chain home
  apart : ∀ b, ∀ a ∈ chain b, a ∉ free
  lt_brk_iff : ∀ a, a < brk ↔ a ∈ free ∨ ∃ b, a ∈ chain b

namespace Slab

variable {free : List ℕ} {chain : B → List ℕ} {home home' : ℕ → B} {brk : ℕ}

theorem empty (home : ℕ → B) : Slab [] (fun _ => []) home 0 where
  free_nodup := List.nodup_nil
  chained := Chained.empty home
  apart := fun _ _ h => absurd h List.not_mem_nil
  lt_brk_iff := by simp

theorem brk_notMem_free (h : Slab free chain home brk) : brk ∉ free := fun hmem =>
  absurd ((h.lt_brk_iff brk).2 (Or.inl hmem)) (Nat.lt_irrefl brk)

theorem lt_of_mem_chain (h : Slab free chain home brk) {b : B} {a : ℕ} (ha : a ∈ chain b) :
    a < brk :=
  (h.lt_brk_iff a).2 (Or.inr ⟨b, ha⟩)

theorem congr (h : Slab free chain home brk) (heq : ∀ b, ∀ a ∈ chain b, home' a = home a) :
    Slab free chain home' brk :=
  { h with chained := h.chained.congr heq }

/-- One more free object. -/
theorem grow (h : Slab free chain home brk) (heq : ∀ a, a ≠ brk → home' a = home a) :
    Slab (free ++ [brk]) chain home' (brk + 1) where
  free_nodup := by
    rw [List.nodup_append_comm]
    exact List.nodup_cons.2 ⟨h.brk_notMem_free, h.free_nodup⟩
  chained := h.chained.congr fun _ a ha => heq a (Nat.ne_of_lt (h.lt_of_mem_chain ha))
  apart := by
    intro b a ha hmem
    rcases List.mem_append.1 hmem with hfree | hbrk
    · exact h.apart b a ha hfree
    · exact Nat.ne_of_lt (h.lt_of_mem_chain ha) (List.mem_singleton.1 hbrk)
  lt_brk_iff := by
    intro a
    have hold := h.lt_brk_iff a
    rw [List.mem_append, List.mem_singleton, Nat.lt_succ_iff_lt_or_eq, hold]
    tauto

/-- The first free object is linked on chain `b`, which is now its home. -/
theorem take [DecidableEq B] {a : ℕ} {b : B} (h : Slab (a :: free) chain home brk)
    (hb : home' a = b) (heq : ∀ a', a' ≠ a → home' a' = home a') :
    Slab free (addHead chain b a) home' brk where
  free_nodup := (List.nodup_cons.1 h.free_nodup).2
  chained :=
    h.chained.addHead (fun b' ha => h.apart b' a ha (List.mem_cons_self ..)) hb heq
  apart := by
    intro b' a' hmem hfree
    rcases mem_addHead.1 hmem with ⟨rfl, -⟩ | hold
    · exact (List.nodup_cons.1 h.free_nodup).1 hfree
    · exact h.apart b' a' hold (List.mem_cons_of_mem _ hfree)
  lt_brk_iff := by
    intro a'
    have hold := h.lt_brk_iff a'
    rw [List.mem_cons] at hold
    simp only [mem_addHead]
    constructor
    · intro hlt
      rcases hold.1 hlt with (rfl | hfree) | ⟨b', hb'⟩
      · exact Or.inr ⟨b, Or.inl ⟨rfl, rfl⟩⟩
      · exact Or.inl hfree
      · exact Or.inr ⟨b', Or.inr hb'⟩
    · rintro (hfree | ⟨b', ⟨rfl, -⟩ | hb'⟩)
      · exact hold.2 (Or.inl (Or.inr hfree))
      · exact hold.2 (Or.inl (Or.inl rfl))
      · exact hold.2 (Or.inr ⟨b', hb'⟩)

end Slab

end EyeQ
