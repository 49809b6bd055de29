import EyeQ.Tx.Class

/-!
# The per-destination states of a class: correctness

`Pooled` is the invariant of the two slabs of a class: as many states as limiters are free, each
hashed state has a hashed limiter for the same address and each hashed limiter belongs to such a
state.  It holds in every run (`runFrom_pooled`).

What a caller of `iso_state_get` wants is `Exact`: it gets no state, or the one for its packet's
address.  Since a scan that finds nothing stays on the last entry of the hash chain,
`isoStateGet_exact_iff` says precisely when this is so: the chain holds the address, or it is empty
and no state has to be taken from an empty list.

The same scan is why no chain ever has a second entry (`Pooled.single`): an address whose chain is
not empty is never given a state of its own.
-/

namespace EyeQ.TxClass

variable {C : Type} {plat : Platform} {txc txc' : TxClass C}

/-! ### The invariant -/

/-- The limiter of state `i` is a hashed one for the same address. -/
def Limited (txc : TxClass C) (i : ℕ) : Prop :=
  ∃ j b, (txc.state i).rl = .obj j ∧ j ∈ txc.rlBucket b ∧ (txc.rls j).ip = (txc.state i).ipKey

structure Pooled (plat : Platform) (txc : TxClass C) : Prop where
  states : Slab txc.preallocStateList txc.stateBucket
    (fun i => stateHash plat (txc.state i).ipKey) txc.brk
  limiters : Slab txc.preallocRlList txc.rlBucket
    (fun j => rlHash plat (txc.rls j).ip) txc.brk
  count : txc.freelistCount = txc.preallocStateList.length
  paired : txc.preallocRlList.length = txc.preallocStateList.length
  single : ∀ b, (txc.stateBucket b).length ≤ 1
  limited : ∀ b, ∀ i ∈ txc.stateBucket b, txc.Limited i
  owned : ∀ b, ∀ j ∈ txc.rlBucket b,
    ∃ b', ∃ i ∈ txc.stateBucket b', (txc.state i).ipKey = (txc.rls j).ip

theorem init_pooled (plat : Platform) (p : Params) (now : ℕ) (klass : UInt32) :
    Pooled plat (init p now klass : TxClass C) where
  states := Slab.empty _
  limiters := Slab.empty _
  count := rfl
  paired := rfl
  single := fun _ => Nat.zero_le _
  limited := fun _ _ h => absurd h List.not_mem_nil
  owned := fun _ _ h => absurd h List.not_mem_nil

/-- The two classes have the same tables: they differ in nothing a lookup depends on. -/
structure SameTable (txc txc' : TxClass C) : Prop where
  stateBucket : txc'.stateBucket = txc.stateBucket
  rlBucket : txc'.rlBucket = txc.rlBucket
  preallocStateList : txc'.preallocStateList = txc.preallocStateList
  preallocRlList : txc'.preallocRlList = txc.preallocRlList
  freelistCount : txc'.freelistCount = txc.freelistCount
  brk : txc'.brk = txc.brk
  ipKey : ∀ i, (txc'.state i).ipKey = (txc.state i).ipKey
  rl : ∀ i, (txc'.state i).rl = (txc.state i).rl
  ip : ∀ j, (txc'.rls j).ip = (txc.rls j).ip

theorem SameTable.refl (txc : TxClass C) : SameTable txc txc :=
  ⟨rfl, rfl, rfl, rfl, rfl, rfl, fun _ => rfl, fun _ => rfl, fun _ => rfl⟩

theorem SameTable.trans {txc₁ txc₂ txc₃ : TxClass C} (h : SameTable txc₁ txc₂)
    (h' : SameTable txc₂ txc₃) : SameTable txc₁ txc₃ where
  stateBucket := h'.stateBucket.trans h.stateBucket
  rlBucket := h'.rlBucket.trans h.rlBucket
  preallocStateList := h'.preallocStateList.trans h.preallocStateList
  preallocRlList := h'.preallocRlList.trans h.preallocRlList
  freelistCount := h'.freelistCount.trans h.freelistCount
  brk := h'.brk.trans h.brk
  ipKey := fun i => (h'.ipKey i).trans (h.ipKey i)
  rl := fun i => (h'.rl i).trans (h.rl i)
  ip := fun j => (h'.ip j).trans (h.ip j)

theorem Pooled.congr (h : Pooled plat txc) (same : SameTable txc txc') : Pooled plat txc' where
  states := by
    rw [same.preallocStateList, same.stateBucket, same.brk]
    exact h.states.congr fun _ i _ => by rw [same.ipKey i]
  limiters := by
    rw [same.preallocRlList, same.rlBucket, same.brk]
    exact h.limiters.congr fun _ j _ => by rw [same.ip j]
  count := by rw [same.freelistCount, same.preallocStateList, h.count]
  paired := by rw [same.preallocRlList, same.preallocStateList, h.paired]
  single := by
    rw [same.stateBucket]
    exact h.single
  limited := by
    intro b i hi
    rw [same.stateBucket] at hi
    obtain ⟨j, b', hrl, hj, hip⟩ := h.limited b i hi
    refine ⟨j, b', ?_, ?_, ?_⟩
    · rw [same.rl, hrl]
    · rw [same.rlBucket]
      exact hj
    · rw [same.ip, same.ipKey, hip]
  owned := by
    intro b j hj
    rw [same.rlBucket] at hj
    obtain ⟨b', i, hi, hip⟩ := h.owned b j hj
    rw [same.stateBucket]
    exact ⟨b', i, hi, by rw [same.ipKey, same.ip, hip]⟩

/-! ### Preallocation -/

theorem Pooled.preallocOne (h : Pooled plat txc) (p : Params) (now : ℕ) :
    Pooled plat (preallocOne p now txc) := by
  -- a new object is on no chain, so nothing that is hashed changes
  have hstate : ∀ b, ∀ i ∈ txc.stateBucket b,
      Function.update txc.state txc.brk ⟨0, .null, now⟩ i = txc.state i := by
    intro b i hi
    exact Function.update_of_ne (Nat.ne_of_lt (h.states.lt_of_mem_chain hi)) ..
  have hrls : ∀ b, ∀ j ∈ txc.rlBucket b,
      Function.update txc.rls txc.brk (Rl.init C p now) j = txc.rls j := by
    intro b j hj
    exact Function.update_of_ne (Nat.ne_of_lt (h.limiters.lt_of_mem_chain hj)) ..
  refine
    { states := ?_, limiters := ?_, count := ?_, paired := ?_, single := h.single
      limited := ?_, owned := ?_ }
  · apply h.states.grow
    intro i hi
    show stateHash plat (Function.update txc.state _ _ i).ipKey = _
    rw [Function.update_of_ne hi]
  · apply h.limiters.grow
    intro j hj
    show rlHash plat (Function.update txc.rls _ _ j).ip = _
    rw [Function.update_of_ne hj]
  · simp [TxClass.preallocOne, h.count]
  · simp [TxClass.preallocOne, h.paired]
  · intro b i hi
    obtain ⟨j, b', hrl, hj, hip⟩ := h.limited b i hi
    refine ⟨j, b', ?_, hj, ?_⟩
    · show (Function.update txc.state _ _ i).rl = _
      rw [hstate b i hi, hrl]
    · show (Function.update txc.rls _ _ j).ip = (Function.update txc.state _ _ i).ipKey
      rw [hrls b' j hj, hstate b i hi, hip]
  · intro b j hj
    obtain ⟨b', i, hi, hip⟩ := h.owned b j hj
    refine ⟨b', i, hi, ?_⟩
    show (Function.update txc.state _ _ i).ipKey = (Function.update txc.rls _ _ j).ip
    rw [hstate b' i hi, hrls b j hj, hip]

theorem Pooled.isoTxcPrealloc (p : Params) (now : ℕ) (rounds : List Bool)
    (h : Pooled plat txc) : Pooled plat (isoTxcPrealloc p now rounds txc) := by
  induction rounds generalizing txc with
  | nil => exact h
  | cons ok rounds ih =>
    rw [TxClass.isoTxcPrealloc]
    split_ifs
    · exact ih (h.preallocOne p now)
    · exact h

/-! ### Taking a state -/

/-- No limiter is hashed for an address whose chain of states is empty. -/
theorem Pooled.rl_ip_ne (h : Pooled plat txc) {ip : UInt32}
    (hnil : txc.stateBucket (stateHash plat ip) = []) {b : UInt32} {j : ℕ}
    (hj : j ∈ txc.rlBucket b) : (txc.rls j).ip ≠ ip := by
  intro hip
  obtain ⟨b', i, hi, hkey⟩ := h.owned b j hj
  have hhome : stateHash plat (txc.state i).ipKey = b' := h.states.chained.home_eq b' i hi
  rw [hkey, hip] at hhome
  rw [← hhome, hnil] at hi
  exact absurd hi List.not_mem_nil

/-- The first free state and the first free limiter are given to `ip`. -/
def give (plat : Platform) (now : ℕ) (txc : TxClass C) (ip : UInt32) (i j : ℕ)
    (states limiters : List ℕ) : TxClass C :=
  { txc with
    state := Function.update txc.state i ⟨ip, .obj j, now⟩
    rls := Function.update txc.rls j { txc.rls j with ip := ip }
    stateBucket := addHead txc.stateBucket (stateHash plat ip) i
    rlBucket := addHead txc.rlBucket (rlHash plat ip) j
    preallocStateList := states
    preallocRlList := limiters
    freelistCount := txc.freelistCount - 1 }

theorem Pooled.takeState_eq (h : Pooled plat txc) {ip : UInt32}
    (hnil : txc.stateBucket (stateHash plat ip) = []) (now : ℕ) {i : ℕ} {rest : List ℕ}
    (hfree : txc.preallocStateList = i :: rest) :
    ∃ j limiters, txc.preallocRlList = j :: limiters ∧
      takeState plat now txc ip i rest = give plat now txc ip i j rest limiters := by
  -- there are as many free limiters as free states
  have hlen := h.paired
  rw [hfree, List.length_cons] at hlen
  obtain ⟨j, limiters, hrl⟩ := List.exists_cons_of_length_eq_add_one hlen
  -- and no limiter has been given to `ip`, so `iso_pick_rl` takes the first free one
  have hfind : (txc.rlBucket (rlHash plat ip)).find? (fun j => (txc.rls j).ip = ip) = none := by
    rw [List.find?_eq_none]
    intro k hk
    simpa using h.rl_ip_ne hnil hk
  have hpick : isoPickRl plat txc ip = (.obj j, { txc with
      rls := Function.update txc.rls j { txc.rls j with ip := ip }
      rlBucket := addHead txc.rlBucket (rlHash plat ip) j
      preallocRlList := limiters }) := by
    rw [isoPickRl, hfind]
    simp only [hrl]
  refine ⟨j, limiters, hrl, ?_⟩
  rw [takeState, hpick]
  rfl

theorem Pooled.give {ip : UInt32} {now i j : ℕ} {states limiters : List ℕ}
    (h : Pooled plat txc) (hnil : txc.stateBucket (stateHash plat ip) = [])
    (hi : txc.preallocStateList = i :: states) (hj : txc.preallocRlList = j :: limiters) :
    Pooled plat (give plat now txc ip i j states limiters) := by
  have hstates := h.states
  have hlimiters := h.limiters
  have hcount := h.count
  have hpaired := h.paired
  rw [hi] at hstates hcount hpaired
  rw [hj] at hlimiters hpaired
  -- the free objects are on no chain, so nothing that is hashed changes
  have hstate : ∀ b, ∀ a ∈ txc.stateBucket b,
      Function.update txc.state i ⟨ip, .obj j, now⟩ a = txc.state a := by
    intro b a ha
    have hne : a ≠ i := fun he => hstates.apart b a ha (he ▸ List.mem_cons_self ..)
    exact Function.update_of_ne hne ..
  have hrls : ∀ b, ∀ a ∈ txc.rlBucket b,
      Function.update txc.rls j { txc.rls j with ip := ip } a = txc.rls a := by
    intro b a ha
    have hne : a ≠ j := fun he => hlimiters.apart b a ha (he ▸ List.mem_cons_self ..)
    exact Function.update_of_ne hne ..
  refine
    { states := ?_, limiters := ?_, count := ?_, paired := ?_, single := ?_
      limited := ?_, owned := ?_ }
  · apply hstates.take
    · simp [TxClass.give]
    · intro a ha
      simp [TxClass.give, Function.update_of_ne ha]
  · apply hlimiters.take
    · simp [TxClass.give]
    · intro a ha
      simp [TxClass.give, Function.update_of_ne ha]
  · simp [TxClass.give, hcount]
  · simpa [TxClass.give] using hpaired
  · -- the chain that the state is linked on was empty
    intro b
    by_cases hb : b = stateHash plat ip
    · subst hb
      simp [TxClass.give, addHead_self, hnil]
    · show (addHead _ _ _ b).length ≤ 1
      rw [addHead_of_ne _ _ hb]
      exact h.single b
  · intro b a ha
    rcases mem_addHead.1 ha with ⟨rfl, -⟩ | hold
    · refine ⟨j, rlHash plat ip, ?_, mem_addHead.2 (Or.inl ⟨rfl, rfl⟩), ?_⟩
      · simp [TxClass.give]
      · simp [TxClass.give]
    · obtain ⟨k, b', hrl, hk, hip⟩ := h.limited b a hold
      refine ⟨k, b', ?_, mem_addHead.2 (Or.inr hk), ?_⟩
      · show (Function.update txc.state _ _ a).rl = _
        rw [hstate b a hold, hrl]
      · show (Function.update txc.rls _ _ k).ip = (Function.update txc.state _ _ a).ipKey
        rw [hrls b' k hk, hstate b a hold, hip]
  · intro b k hk
    rcases mem_addHead.1 hk with ⟨rfl, -⟩ | hold
    · refine ⟨stateHash plat ip, i, mem_addHead.2 (Or.inl ⟨rfl, rfl⟩), ?_⟩
      simp [TxClass.give]
    · obtain ⟨b', a, ha, hip⟩ := h.owned b k hold
      refine ⟨b', a, mem_addHead.2 (Or.inr ha), ?_⟩
      show (Function.update txc.state _ _ a).ipKey = (Function.update txc.rls _ _ k).ip
      rw [hstate b' a ha, hrls b k hold, hip]

/-! ### What `iso_state_get` returns -/

theorem scanState_eq_none_iff (ip : UInt32) :
    scanState plat txc ip = none ↔ txc.stateBucket (stateHash plat ip) = [] :=
  Klist.scan_eq_none_iff

/-- On a chain with one entry the scan ends there, whether or not it is the one looked for. -/
theorem scanState_of_eq_singleton {ip : UInt32} {i : ℕ}
    (h : txc.stateBucket (stateHash plat ip) = [i]) : scanState plat txc ip = some i := by
  rw [scanState, h, Klist.scan]
  split_ifs
  · rfl
  · rfl

/-- A lookup that returns `v` and leaves the class as `txc'`. -/
inductive Got (plat : Platform) (now : ℕ) (txc : TxClass C) (ip : UInt32) (create trylock : Bool) :
    Ptr → TxClass C → Prop
  /-- The only state on the chain, whatever its address. -/
  | found (i : ℕ) (hchain : txc.stateBucket (stateHash plat ip) = [i]) :
    Got plat now txc ip create trylock (.obj i) txc
  | refused (hchain : txc.stateBucket (stateHash plat ip) = [])
    (hno : create = false ∨ trylock = false) : Got plat now txc ip create trylock .null txc
  | exhausted (hchain : txc.stateBucket (stateHash plat ip) = []) (hcreate : create = true)
    (hlock : trylock = true) (hfree : txc.preallocStateList = []) :
    Got plat now txc ip create trylock .listHead txc
  | taken (i j : ℕ) (states limiters : List ℕ)
    (hchain : txc.stateBucket (stateHash plat ip) = []) (hcreate : create = true)
    (hlock : trylock = true) (hi : txc.preallocStateList = i :: states)
    (hj : txc.preallocRlList = j :: limiters) :
    Got plat now txc ip create trylock (.obj i) (give plat now txc ip i j states limiters)

/-- The cases of `iso_state_get` for an IPv4 packet. -/
theorem Pooled.isoStateGet_got (h : Pooled plat txc) (now : ℕ) {skb : Skb} (hip : skb.isIp)
    (rx create trylock : Bool) :
    Got plat now txc (peer plat skb rx) create trylock
      (isoStateGet plat now txc skb rx create trylock).1
      (isoStateGet plat now txc skb rx create trylock).2 := by
  rw [isoStateGet, if_neg (by simpa using hip)]
  have hsingle := h.single (stateHash plat (peer plat skb rx))
  rcases hchain : txc.stateBucket (stateHash plat (peer plat skb rx)) with _ | ⟨i, l⟩
  · have hscan := (scanState_eq_none_iff _).2 hchain
    simp only [hscan]
    by_cases hno : ¬ create ∨ ¬ trylock
    · rw [if_pos hno]
      exact .refused hchain (by simpa using hno)
    · rw [if_neg hno]
      obtain ⟨hcreate, hlock⟩ : create = true ∧ trylock = true := by simpa using hno
      rcases hfree : txc.preallocStateList with _ | ⟨i, states⟩
      · exact .exhausted hchain hcreate hlock hfree
      · obtain ⟨j, limiters, hj, htake⟩ := h.takeState_eq hchain now hfree
        simp only [htake]
        exact .taken i j states limiters hchain hcreate hlock hfree hj
  · -- a chain has one entry at most, and the scan ends on it
    rw [hchain] at hsingle
    have hl : l = [] := List.eq_nil_of_length_eq_zero (by simpa using hsingle)
    subst hl
    simp only [scanState_of_eq_singleton hchain]
    exact .found i hchain

theorem isoStateGet_of_not_isIp (now : ℕ) {skb : Skb} (hip : ¬ skb.isIp)
    (rx create trylock : Bool) :
    isoStateGet plat now txc skb rx create trylock = (.null, txc) := by
  rw [isoStateGet, if_pos hip]

theorem Got.pooled {now : ℕ} {ip : UInt32} {create trylock : Bool} {v : Ptr}
    (hgot : Got plat now txc ip create trylock v txc') (h : Pooled plat txc) :
    Pooled plat txc' := by
  cases hgot with
  | found | refused | exhausted => exact h
  | taken i j states limiters hchain _ _ hi hj => exact h.give hchain hi hj

theorem Pooled.isoStateGet (h : Pooled plat txc) (now : ℕ) (skb : Skb)
    (rx create trylock : Bool) :
    Pooled plat (isoStateGet plat now txc skb rx create trylock).2 := by
  by_cases hip : skb.isIp
  · exact (h.isoStateGet_got now hip rx create trylock).pooled h
  · rw [isoStateGet_of_not_isIp now hip]
    exact h

/-! ### Runs -/

theorem Pooled.step (h : Pooled plat txc) (p : Params) (op : Op C) :
    Pooled plat (step plat p txc op) := by
  cases op with
  | stateGet now skb rx create trylock => exact h.isoStateGet now skb rx create trylock
  | prealloc now rounds => exact h.isoTxcPrealloc p now rounds
  | limiter j rl =>
    exact h.congr ⟨rfl, rfl, rfl, rfl, rfl, rfl, fun _ => rfl, fun _ => rfl,
      field_update Rl.ip txc.rls rfl⟩
  | rateControl i t =>
    exact h.congr ⟨rfl, rfl, rfl, rfl, rfl, rfl, field_update PerDestState.ipKey txc.state rfl,
      field_update PerDestState.rl txc.state rfl, fun _ => rfl⟩

/-- The tables are in order in every run. -/
theorem runFrom_pooled (plat : Platform) (p : Params) (now : ℕ) (klass : UInt32)
    (ops : List (Op C)) : Pooled plat (runFrom plat p now klass ops) :=
  Machine.run_invariant (P := Pooled plat) _ (fun _ op (_ : True) h => h.step p op)
    (init_pooled plat p now klass) fun _ _ => trivial

/-! ### Exactness -/

/-- What a caller of `iso_state_get` may rely on: it gets `NULL`, or a hashed state for its packet's
address whose limiter is one of the class, for the same address. -/
def Exact (txc : TxClass C) (ip : UInt32) : Ptr → Prop
  | .null => True
  | .obj i => (∃ b, i ∈ txc.stateBucket b) ∧ (txc.state i).ipKey = ip ∧
      ∃ j < txc.brk, (txc.state i).rl = .obj j ∧ (txc.rls j).ip = ip
  | .listHead => False

/-- A hashed state is exact for its own address. -/
theorem Pooled.exact_ipKey (h : Pooled plat txc) {b : UInt32} {i : ℕ}
    (hi : i ∈ txc.stateBucket b) : txc.Exact (txc.state i).ipKey (.obj i) := by
  obtain ⟨j, b', hrl, hj, hip⟩ := h.limited b i hi
  exact ⟨⟨b, hi⟩, rfl, j, h.limiters.lt_of_mem_chain hj, hrl, hip⟩

theorem Got.exact_iff {now : ℕ} {ip : UInt32} {create trylock : Bool} {v : Ptr}
    (hgot : Got plat now txc ip create trylock v txc') (h : Pooled plat txc) :
    txc'.Exact ip v ↔
      (∃ i ∈ txc.stateBucket (stateHash plat ip), (txc.state i).ipKey = ip) ∨
        (txc.stateBucket (stateHash plat ip) = [] ∧
          (create = false ∨ trylock = false ∨ txc.preallocStateList ≠ [])) := by
  have hpooled := hgot.pooled h
  cases hgot with
  | found i hchain =>
    have hi : i ∈ txc.stateBucket (stateHash plat ip) := by simp [hchain]
    constructor
    · intro hexact
      exact Or.inl ⟨i, hi, hexact.2.1⟩
    · rintro (⟨a, ha, hip⟩ | ⟨hnil, -⟩)
      · obtain rfl : a = i := by simpa [hchain] using ha
        rw [← hip]
        exact h.exact_ipKey hi
      · simp [hchain] at hnil
  | refused hchain hno =>
    constructor
    · intro _
      exact Or.inr ⟨hchain, by tauto⟩
    · intro _
      trivial
  | exhausted hchain hcreate hlock hfree =>
    constructor
    · intro hfalse
      exact absurd hfalse id
    · simp [hchain, hcreate, hlock, hfree]
  | taken i j states limiters hchain hcreate hlock hi hj =>
    constructor
    · intro _
      exact Or.inr ⟨hchain, Or.inr (Or.inr (by simp [hi]))⟩
    · intro _
      have hmem : i ∈ (TxClass.give plat now txc ip i j states limiters).stateBucket
          (stateHash plat ip) := mem_addHead.2 (Or.inl ⟨rfl, rfl⟩)
      have hkey : ((TxClass.give plat now txc ip i j states limiters).state i).ipKey = ip := by
        simp [TxClass.give]
      have hexact := hpooled.exact_ipKey hmem
      rwa [hkey] at hexact

/-- **When a lookup is exact**: for every run of a class, every packet, both directions, both create
flags and both outcomes of `spin_trylock`.  The chain of the packet's address must hold that
address, or be empty; and if a state is to be created, there must be a free one. -/
theorem isoStateGet_exact_iff (plat : Platform) (p : Params) (t : ℕ) (klass : UInt32)
    (ops : List (Op C)) (now : ℕ) (skb : Skb) (rx create trylock : Bool) :
    let txc := runFrom plat p t klass ops
    let ip := peer plat skb rx
    let chain := txc.stateBucket (stateHash plat ip)
    let r := isoStateGet plat now txc skb rx create trylock
    r.2.Exact ip r.1 ↔
      ¬ skb.isIp ∨ (∃ i ∈ chain, (txc.state i).ipKey = ip) ∨
        (chain = [] ∧ (create = false ∨ trylock = false ∨ txc.preallocStateList ≠ [])) := by
  intro txc ip chain r
  have h : Pooled plat txc := runFrom_pooled plat p t klass ops
  by_cases hip : skb.isIp
  · rw [(h.isoStateGet_got now hip rx create trylock).exact_iff h]
    simp only [hip, not_true_eq_false, false_or]
    rfl
  · have hr : r = (.null, txc) := isoStateGet_of_not_isIp now hip rx create trylock
    rw [hr]
    simp [hip, Exact]

/-- A packet to `daddr`, in host order. -/
def packetTo (daddr : UInt32) : Skb := ⟨0, 86, true, 0, bswap32 daddr, 6, 0, 0, by decide⟩

/-- 10.0.0.1 has been given a state. -/
def firstDestination : List (Op Unit) :=
  [.prealloc 0 (List.replicate 32 true), .stateGet 0 (packetTo 0x0a000001) false true true]

/-- 10.0.1.94 is on the chain of 10.0.0.1 and is served the state of 10.0.0.1.  A class whose
preallocation failed returns its list head as a state. -/
theorem isoStateGet_not_exact :
    let txc := runFrom Platform.x86 {} 0 0 firstDestination
    let r := isoStateGet Platform.x86 0 txc (packetTo 0x0a00015e) false false false
    let empty : TxClass Unit := runFrom Platform.x86 {} 0 0 []
    let r' := isoStateGet Platform.x86 0 empty (packetTo 0x0a000001) false true true
    (r.1 = .obj 0 ∧ (r.2.state 0).ipKey = 0x0a000001 ∧ ¬ r.2.Exact 0x0a00015e r.1) ∧
      (r'.1 = .listHead ∧ ¬ r'.2.Exact 0x0a000001 r'.1) := by
  intro txc r empty r'
  have hr : r.1 = .obj 0 := by decide +kernel
  have hkey : (r.2.state 0).ipKey = 0x0a000001 := by decide +kernel
  have hr' : r'.1 = .listHead := by decide +kernel
  refine ⟨⟨hr, hkey, ?_⟩, hr', ?_⟩
  · rw [hr]
    rintro ⟨-, hip, -⟩
    rw [hkey] at hip
    exact absurd hip (by decide)
  · rw [hr']
    exact id

end EyeQ.TxClass
