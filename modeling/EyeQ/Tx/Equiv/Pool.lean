import EyeQ.Tx.Equiv.Class

/-!
# The pool of states and limiters

`PoolConsistent` is what the two free lists, the two hash tables and the counter of a class have to
do with each other.  It follows from `Pooled`, which every piece of `iso_state_get` and of
`iso_txc_prealloc` keeps (`Pooled.stepPiece`), so it holds however calls on different CPUs
interleave (`runPieces_poolConsistent`).

That `iso_pick_rl` never finds a limiter in its table, where it would leave the free list as it is
while the counter goes down, is because no state has the address: a limiter is hashed for the
address of a hashed state only (`Pooled.owned`), and a state is created for an address whose chain
is empty.

`stepPieces_of_step` relates this to whole calls: each is a sequence of pieces.
-/

namespace EyeQ.TxClass

variable {C : Type} {plat : Platform} {txc txc' : TxClass C}

/-! ### Calls and pieces -/

/-- A call that gets the lock does what is between the lock and the unlock, in the state in which it
started. -/
theorem isoStateGet_eq_createState (now : ℕ) {skb : Skb} (rx : Bool) (hip : skb.isIp) :
    isoStateGet plat now txc skb rx true true = createState plat now txc (peer plat skb rx) := by
  unfold isoStateGet createState
  simp only [hip, not_true_eq_false, ↓reduceIte, or_self]
  cases scanState plat txc (peer plat skb rx) <;> rfl

/-- A call that changes anything has got the lock. -/
theorem isoStateGet_eq_self (now : ℕ) (skb : Skb) (rx : Bool) {create trylock : Bool}
    (hno : create = false ∨ trylock = false) :
    (isoStateGet plat now txc skb rx create trylock).2 = txc := by
  have hno' : ¬ create ∨ ¬ trylock := by simpa using hno
  unfold isoStateGet
  by_cases hip : skb.isIp
  · simp only [hip, not_true_eq_false, hno', ↓reduceIte]
    cases scanState plat txc (peer plat skb rx) <;> rfl
  · rw [if_pos hip]

/-- A run of `iso_txc_prealloc` is a sequence of rounds. -/
theorem isoTxcPrealloc_eq_run (plat : Platform) (p : Params) (now : ℕ) (rounds : List Bool)
    (txc : TxClass C) : ∃ pieces,
      isoTxcPrealloc p now rounds txc = Machine.run (stepPiece plat p) txc pieces := by
  induction rounds generalizing txc with
  | nil => exact ⟨[], rfl⟩
  | cons ok rounds ih =>
    cases ok with
    | false => exact ⟨[], rfl⟩
    | true =>
      obtain ⟨pieces, hpieces⟩ := ih (TxClass.preallocOne p now txc)
      exact ⟨.round now true :: pieces, hpieces⟩

/-- Every operation is a sequence of pieces. -/
theorem stepPieces_of_step (plat : Platform) (p : Params) (txc : TxClass C) (op : Op C) :
    ∃ pieces, step plat p txc op = Machine.run (stepPiece plat p) txc pieces := by
  cases op with
  | stateGet now skb rx create trylock =>
    by_cases hip : skb.isIp
    · by_cases hno : create = false ∨ trylock = false
      · exact ⟨[], isoStateGet_eq_self now skb rx hno⟩
      · obtain ⟨rfl, rfl⟩ : create = true ∧ trylock = true := by simpa using hno
        refine ⟨[.createState now (peer plat skb rx)], ?_⟩
        exact congrArg Prod.snd (isoStateGet_eq_createState now rx hip)
    · exact ⟨[], by rw [step, isoStateGet_of_not_isIp now hip]; rfl⟩
  | prealloc now rounds => exact isoTxcPrealloc_eq_run plat p now rounds txc
  | limiter j rl => exact ⟨[.limiter j rl], rfl⟩
  | rateControl i t => exact ⟨[.rateControl i t], rfl⟩

/-! ### The invariant -/

theorem Pooled.createState (h : Pooled plat txc) (now : ℕ) (ip : UInt32) :
    Pooled plat (createState plat now txc ip).2 := by
  unfold TxClass.createState
  cases hscan : scanState plat txc ip with
  | some i => exact h
  | none =>
    have hnil := (scanState_eq_none_iff ip).mp hscan
    cases hfree : txc.preallocStateList with
    | nil => exact h
    | cons i rest =>
      obtain ⟨j, limiters, hj, htake⟩ := h.takeState_eq hnil now hfree
      show Pooled plat (takeState plat now txc ip i rest)
      rw [htake]
      exact h.give hnil hfree hj

theorem Pooled.stepPiece (h : Pooled plat txc) (p : Params) (piece : Piece C) :
    Pooled plat (stepPiece plat p txc piece) := by
  cases piece with
  | createState now ip => exact h.createState now ip
  | round now ok => exact h.isoTxcPrealloc p now [ok]
  | limiter j rl => exact h.step p (.limiter j rl)
  | rateControl i t => exact h.step p (.rateControl i t)

/-! ### Consistency -/

/-- An object is on the free list and on no chain, or on one chain and not on the free list. -/
def OnePlace (free : List ℕ) (chain : UInt32 → List ℕ) (a : ℕ) : Prop :=
  (free.count a = 1 ∧ ∀ b, a ∉ chain b) ∨
    (a ∉ free ∧ ∃ b, (chain b).count a = 1 ∧ ∀ b', b' ≠ b → a ∉ chain b')

/-- A state that is on a chain. -/
def Hashed (txc : TxClass C) (i : ℕ) : Prop := ∃ b, i ∈ txc.stateBucket b

/-- The pool is consistent. -/
structure PoolConsistent (txc : TxClass C) : Prop where
  count_states : txc.freelistCount = txc.preallocStateList.length
  count_limiters : txc.freelistCount = txc.preallocRlList.length
  states : ∀ i < txc.brk, OnePlace txc.preallocStateList txc.stateBucket i
  limiters : ∀ j < txc.brk, OnePlace txc.preallocRlList txc.rlBucket j
  key_inj : ∀ i i', txc.Hashed i → txc.Hashed i' →
    (txc.state i).ipKey = (txc.state i').ipKey → i = i'
  rl_inj : ∀ i i', txc.Hashed i → txc.Hashed i' → (txc.state i).rl = (txc.state i').rl → i = i'
  rl_ip : ∀ i, txc.Hashed i → ∃ j < txc.brk, (txc.state i).rl = .obj j ∧
    (txc.rls j).ip = (txc.state i).ipKey

/-- Every object of a slab is in one place. -/
theorem onePlace_of_slab {free : List ℕ} {chain : UInt32 → List ℕ} {home : ℕ → UInt32} {brk : ℕ}
    (h : Slab free chain home brk) {a : ℕ} (ha : a < brk) : OnePlace free chain a := by
  rcases (h.lt_brk_iff a).mp ha with hfree | ⟨b, hb⟩
  · exact Or.inl ⟨List.count_eq_one_of_mem h.free_nodup hfree, fun b hb => h.apart b a hb hfree⟩
  · refine Or.inr ⟨h.apart b a hb, b, List.count_eq_one_of_mem (h.chained.nodup b) hb, ?_⟩
    intro b' hne hb'
    exact hne ((h.chained.home_eq b' a hb').symm.trans (h.chained.home_eq b a hb))

/-- A chain has one state, so a hashed state is known by its address. -/
theorem Pooled.key_inj (h : Pooled plat txc) {i i' : ℕ} (hi : txc.Hashed i) (hi' : txc.Hashed i')
    (hkey : (txc.state i).ipKey = (txc.state i').ipKey) : i = i' := by
  obtain ⟨b, hb⟩ := hi
  obtain ⟨b', hb'⟩ := hi'
  have hhome : stateHash plat (txc.state i).ipKey = b := h.states.chained.home_eq b i hb
  have hhome' : stateHash plat (txc.state i').ipKey = b' := h.states.chained.home_eq b' i' hb'
  obtain rfl : b = b' := by rw [← hhome, ← hhome', hkey]
  obtain ⟨a, ha⟩ := List.length_eq_one_iff.mp
    (le_antisymm (h.single b) (List.length_pos_of_mem hb))
  rw [ha, List.mem_singleton] at hb hb'
  rw [hb, hb']

theorem Pooled.poolConsistent (h : Pooled plat txc) : PoolConsistent txc where
  count_states := h.count
  count_limiters := by rw [h.count, h.paired]
  states i hi := onePlace_of_slab h.states hi
  limiters j hj := onePlace_of_slab h.limiters hj
  key_inj i i' hi hi' := h.key_inj hi hi'
  rl_inj i i' hi hi' hrl := by
    -- the limiter has the address of either state, so the addresses are the same
    obtain ⟨b, hb⟩ := hi
    obtain ⟨b', hb'⟩ := hi'
    obtain ⟨j, -, hj, -, hip⟩ := h.limited b i hb
    obtain ⟨j', -, hj', -, hip'⟩ := h.limited b' i' hb'
    obtain rfl : j = j' := Ptr.obj.inj (hj.symm.trans (hrl.trans hj'))
    exact h.key_inj ⟨b, hb⟩ ⟨b', hb'⟩ (hip.symm.trans hip')
  rl_ip i hi := by
    obtain ⟨b, hb⟩ := hi
    obtain ⟨j, b', hrl, hj, hip⟩ := h.limited b i hb
    exact ⟨j, h.limiters.lt_of_mem_chain hj, hrl, hip⟩

/-- **The pool is consistent**, however the calls of `iso_state_get` and the rounds of
`iso_txc_prealloc` interleave and whichever allocations fail. -/
theorem runPieces_poolConsistent (plat : Platform) (p : Params) (now : ℕ) (klass : UInt32)
    (pieces : List (Piece C)) : PoolConsistent (runPieces plat p now klass pieces) := by
  have hpooled : Pooled plat (runPieces plat p now klass pieces) :=
    Machine.run_invariant (P := Pooled plat) _ (fun _ piece (_ : True) h => h.stepPiece p piece)
      (init_pooled plat p now klass) fun _ _ => trivial
  exact hpooled.poolConsistent

end EyeQ.TxClass
