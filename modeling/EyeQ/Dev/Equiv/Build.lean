import EyeQ.Dev.Build
import EyeQ.Dev.Equiv.Effect

/-!
# What a failed allocation leaves behind

A device is `Whole` if everything that packets can reach has its memory: the counters of a VQ, and
the queues of the limiters.  An operation `Constructs` if it leaves the device whole, and if a
command that has not got all the memory that it asked for returns an error and has changed nothing.

`kmalloc` of a VQ or a class is looked at, and so are the first three allocations of a round of
`iso_txc_prealloc`: the loop ends there.  But `iso_vq_alloc` drops the error of `iso_vq_init` and
links a VQ without counters, `iso_rl_init` has no error to return, so limiters without queues are
linked, and a class whose preallocation was cut short is created all the same.  `runs_construct_iff`
is the condition for each operation.
-/

namespace EyeQ

open Machine

variable {C : Type} {plat : Platform} {p : Params}

/-! ### What can be reached -/

/-- The VQ is on `vq_list` or on a chain of `vq_bucket`. -/
def RxContext.Linked (ctx : RxContext C) (v : ℕ) : Prop := v ∈ ctx.vqList ∨ ∃ b, v ∈ ctx.vqBucket b

/-- The class is on `txc_list` or on a chain of `iso_tx_bucket`. -/
def TxContext.Linked (ctx : TxContext C) (k : ℕ) : Prop :=
  k ∈ ctx.txcList ∨ ∃ b, k ∈ ctx.isoTxBucket b

/-- The limiter is free, or on a chain of `rl_bucket`. -/
def TxClass.Linked (txc : TxClass C) (j : ℕ) : Prop :=
  j ∈ txc.preallocRlList ∨ ∃ b, j ∈ txc.rlBucket b

/-- The two contexts have the same VQs, or the second has fewer. -/
structure RxContext.Fewer (ctx ctx' : RxContext C) : Prop where
  linked : ∀ v, ctx'.Linked v → ctx.Linked v
  percpuStats : ∀ v, (ctx'.vqs v).percpuStats = (ctx.vqs v).percpuStats

/-- The two contexts have the same classes with the same limiters, or the second has fewer. -/
structure TxContext.Fewer (ctx ctx' : TxContext C) : Prop where
  linked : ∀ k, ctx'.Linked k → ctx.Linked k
  limiters : ∀ k j, (ctx'.txcs k).Linked j → (ctx.txcs k).Linked j

namespace RxContext

variable {ctx ctx' ctx'' : RxContext C}

theorem Fewer.refl (ctx : RxContext C) : Fewer ctx ctx := ⟨fun _ h => h, fun _ => rfl⟩

theorem Reconfigured.fewer (h : Reconfigured ctx ctx') : Fewer ctx ctx' where
  linked := by
    intro v hv
    rw [Linked, h.vqList, h.vqBucket] at hv
    exact hv
  percpuStats := h.field Vq.percpuStats fun _ _ _ _ => rfl

theorem Fewer.setRefcnt (h : Fewer ctx ctx') (v : ℕ) (f : Vq C → ℤ) :
    Fewer ctx (ctx'.modifyVq v fun vq => { vq with refcnt := f vq }) where
  linked := h.linked
  percpuStats v' := by
    have hsame := field_update Vq.percpuStats ctx'.vqs (a := v)
      (x := { ctx'.vqs v with refcnt := f (ctx'.vqs v) }) rfl v'
    exact hsame.trans (h.percpuStats v')

theorem assoc_fewer (ctx : RxContext C) (old : Option ℕ) (klass : UInt32) :
    Fewer ctx (ctx.assoc plat old klass) := by
  unfold assoc
  split
  · exact Fewer.refl ctx
  · apply Fewer.setRefcnt
    cases old with
    | none => exact Fewer.refl ctx
    | some o => exact (Fewer.refl ctx).setRefcnt o _

theorem erase_fewer (ctx : RxContext C) (v : ℕ) :
    Fewer ctx { ctx with vqList := ctx.vqList.erase v } where
  linked := fun _ hx => hx.imp_left List.mem_of_mem_erase
  percpuStats := fun _ => rfl

end RxContext

namespace TxClass

variable {txc : TxClass C}

theorem isoPickRl_linked {ip : UInt32} {j : ℕ} (h : (isoPickRl plat txc ip).2.Linked j) :
    txc.Linked j := by
  unfold isoPickRl at h
  split at h
  · exact h
  · split at h
    · exact h
    · rename_i i rest hlist
      rcases h with h | ⟨b, h⟩
      · exact Or.inl (hlist ▸ List.mem_cons_of_mem _ h)
      · rcases mem_addHead.mp h with ⟨rfl, -⟩ | h
        · exact Or.inl (hlist ▸ List.mem_cons_self)
        · exact Or.inr ⟨b, h⟩

theorem takeState_linked {now : ℕ} {ip : UInt32} {i : ℕ} {rest : List ℕ} {j : ℕ}
    (h : (takeState plat now txc ip i rest).Linked j) : txc.Linked j := by
  unfold takeState at h
  dsimp only at h
  split_ifs at h
  · exact isoPickRl_linked h
  · exact isoPickRl_linked h

/-- A limiter that a lookup takes from the free list goes to a chain. -/
theorem isoStateGet_linked {now : ℕ} {skb : Skb} {rx create trylock : Bool} {j : ℕ}
    (h : (isoStateGet plat now txc skb rx create trylock).2.Linked j) : txc.Linked j := by
  unfold isoStateGet at h
  split at h
  · exact h
  · dsimp only at h
    split at h
    · exact h
    · split at h
      · exact h
      · split at h
        · exact h
        · split at h
          · exact h
          · exact takeState_linked h

/-- The limiters that the rounds link are the next ones. -/
theorem isoTxcPrealloc_linked_iff (now : ℕ) (l : List Bool) (txc : TxClass C) (j : ℕ) :
    (isoTxcPrealloc p now l txc).Linked j ↔
      txc.Linked j ∨ txc.brk ≤ j ∧ j < txc.brk + (l.takeWhile id).length := by
  induction l generalizing txc with
  | nil =>
    have hnone : ¬ (txc.brk ≤ j ∧ j < txc.brk + ([] : List Bool).length) := by simp
    exact (or_iff_left hnone).symm
  | cons ok l ih =>
    cases ok with
    | false =>
      have hnone : ¬ (txc.brk ≤ j ∧ j < txc.brk + ((false :: l).takeWhile id).length) := by simp
      exact (or_iff_left hnone).symm
    | true =>
      have hone : (preallocOne p now txc).Linked j ↔ txc.Linked j ∨ j = txc.brk := by
        unfold Linked preallocOne
        dsimp only
        rw [List.mem_append, List.mem_singleton, or_right_comm]
      have hbrk : (preallocOne p now txc).brk = txc.brk + 1 := rfl
      rw [isoTxcPrealloc, if_pos rfl, ih, hone, hbrk, List.takeWhile_cons_of_pos rfl,
        List.length_cons, or_assoc]
      refine or_congr_right ?_
      omega

end TxClass

namespace TxContext

variable {ctx ctx' : TxContext C}

theorem Fewer.refl (ctx : TxContext C) : Fewer ctx ctx := ⟨fun _ h => h, fun _ _ h => h⟩

theorem Reconfigured.fewer (h : Reconfigured ctx ctx') : Fewer ctx ctx' where
  linked := by
    intro k hk
    rw [Linked, h.txcList, h.isoTxBucket] at hk
    exact hk
  limiters := by
    intro k j hj
    have hlist := h.field TxClass.preallocRlList (fun _ _ _ _ _ _ => rfl) k
    have hbucket := h.field TxClass.rlBucket (fun _ _ _ _ _ _ => rfl) k
    rw [TxClass.Linked, hlist, hbucket] at hj
    exact hj

theorem modifyTxc_self (ctx : TxContext C) (k : ℕ) (f : TxClass C → TxClass C) :
    (ctx.modifyTxc k f).txcs k = f (ctx.txcs k) := Function.update_self ..

theorem modifyTxc_of_ne {k k' : ℕ} (h : k' ≠ k) (ctx : TxContext C) (f : TxClass C → TxClass C) :
    (ctx.modifyTxc k f).txcs k' = ctx.txcs k' := Function.update_of_ne h ..

/-- A change to one class that links no limiter. -/
theorem Fewer.modifyTxc (h : Fewer ctx ctx') {k : ℕ} {f : TxClass C → TxClass C}
    (hf : ∀ j, (f (ctx'.txcs k)).Linked j → (ctx'.txcs k).Linked j) :
    Fewer ctx (ctx'.modifyTxc k f) where
  linked := h.linked
  limiters := by
    intro k' j hj
    by_cases hk : k' = k
    · subst hk
      rw [modifyTxc_self] at hj
      exact h.limiters k' j (hf j hj)
    · rw [modifyTxc_of_ne hk] at hj
      exact h.limiters k' j hj

theorem assoc_fewer (ctx : TxContext C) (klass : UInt32) (vq : Option ℕ) :
    Fewer ctx (assoc plat klass vq ctx) := by
  unfold assoc
  split
  · exact (Fewer.refl ctx).modifyTxc fun _ h => h
  · exact Fewer.refl ctx

theorem isoSysDeleteTxc_fewer (ctx : TxContext C) (klass : UInt32) :
    Fewer ctx (isoSysDeleteTxc plat p klass ctx).2 := by
  unfold isoSysDeleteTxc
  split
  · exact Fewer.refl ctx
  · rename_i k _
    have hrates := ((Reconfigured.refl { ctx with
      isoTxBucket := unlink ctx.isoTxBucket k
      txcTotalWeight := s32 (ctx.txcTotalWeight - (ctx.txcs k).weight) }).isoTxcRecomputeRates
        (p := p)).fewer
    refine ⟨fun x hx => ?_, hrates.limiters⟩
    rcases hrates.linked x hx with hlist | ⟨b, hb⟩
    · exact Or.inl hlist
    · exact Or.inr ⟨b, List.mem_of_mem_erase hb⟩

end TxContext

/-! ### Commands that create nothing -/

namespace Dev

variable {d d' : Dev C}

/-- Nothing has been linked, and no memory has been lost. -/
structure Fewer (d d' : Dev C) : Prop where
  rx : RxContext.Fewer d.rx d'.rx
  tx : TxContext.Fewer d.tx d'.tx

theorem Fewer.refl (d : Dev C) : Fewer d d := ⟨.refl _, .refl _⟩

theorem exec_fewer {op : Op} (hop : op.creates = false) {r : ℤ × Dev C}
    (h : d.exec plat p op = .ok r) :
    Fewer d r.2 := by
  cases op with
  | createTxc now kmalloc rounds klass => exact nomatch hop
  | createVq now kmalloc percpu stale klass => exact nomatch hop
  | assocTxcVq txclass vqclass =>
    have h : d.isoSysAssocTxcVq plat txclass vqclass = .ok r := h
    unfold isoSysAssocTxcVq Host.isoSysAssocTxcVq at h
    cases hk : d.tx.isoTxcFind plat txclass with
    | none =>
      rw [hk] at h
      rw [← Except.ok.inj h]
      exact .refl d
    | some k =>
      rw [hk] at h
      obtain ⟨_, -, h⟩ := bind_eq_ok h
      rw [← Except.ok.inj h]
      cases hv : d.rx.isoVqFind plat vqclass with
      | none => exact .refl d
      | some v => exact ⟨RxContext.assoc_fewer .., TxContext.assoc_fewer ..⟩
  | setTxcWeight klass weight =>
    rw [walked_eq_ok (d := d) h]
    exact ⟨.refl _, (TxContext.isoSysSetTxcWeight_reconfigured klass weight).fewer⟩
  | setTxcRate klass rate =>
    rw [walked_eq_ok (d := d) h]
    exact ⟨.refl _, (TxContext.isoSysSetTxcRate_reconfigured klass rate).fewer⟩
  | setVqWeight klass weight =>
    obtain ⟨rx, hrx, hd⟩ := onVq_eq_ok h
    rw [hd]
    exact ⟨((RxContext.isoSysSetVqWeight_reconfigured klass weight).of_eq_ok hrx).fewer, .refl _⟩
  | setVqRate klass rate =>
    obtain ⟨rx, hrx, hd⟩ := onVq_eq_ok h
    rw [hd]
    exact ⟨((RxContext.isoSysSetVqRate_reconfigured klass rate).of_eq_ok hrx).fewer, .refl _⟩
  | deleteTxc klass =>
    have h : d.isoSysDeleteTxc plat p klass = .ok r := h
    unfold isoSysDeleteTxc at h
    split at h
    · rw [← Except.ok.inj h]
      exact .refl d
    · rename_i k hk
      obtain ⟨r', hwalk, h⟩ := bind_eq_ok h
      rw [walked_eq_ok hwalk] at h
      rw [← Except.ok.inj h]
      have hdelete : Fewer d { d with tx := (d.tx.isoSysDeleteTxc plat p klass).2 } :=
        ⟨.refl _, TxContext.isoSysDeleteTxc_fewer ..⟩
      show Fewer d (release (d.tx.txcs k).vq _)
      cases (d.tx.txcs k).vq with
      | none => exact hdelete
      | some v =>
        exact ⟨(RxContext.Fewer.refl d.rx).setRefcnt v fun vq => vq.refcnt - 1, hdelete.tx⟩
  | deleteVq klass =>
    obtain ⟨found, -, h⟩ := bind_eq_ok (x := d.isoVqFind plat klass) h
    cases found with
    | none =>
      rw [← Except.ok.inj h]
      exact .refl d
    | some v =>
      dsimp only at h
      split_ifs at h with hbusy
      · rw [← Except.ok.inj h]
        exact .refl d
      · obtain ⟨d', hfree, h⟩ := bind_eq_ok h
        rw [← Except.ok.inj h]
        rw [isoVqFree, if_neg hbusy] at hfree
        split_ifs at hfree
        rw [← Except.ok.inj hfree]
        exact ⟨RxContext.erase_fewer .., .refl _⟩
  | recomputeDev =>
    obtain ⟨r', hwalk, h⟩ := bind_eq_ok (x := d.walked 0 (d.tx.isoTxcRecomputeRates p)) h
    rw [walked_eq_ok hwalk] at h
    obtain ⟨rx, hrates, h⟩ := bind_eq_ok h
    rw [← Except.ok.inj h]
    have hrx := (RxContext.Reconfigured.refl d.rx).isoVqCalculateRates.of_eq_ok (lift_eq_ok hrates)
    exact ⟨hrx.fewer, ((TxContext.Reconfigured.refl d.tx).isoTxcRecomputeRates (p := p)).fewer⟩

/-! ### Linking -/

/-- The new VQ, and those that were linked before. -/
theorem linked_linkVq {v : ℕ} {vq : Vq C} {ctx : RxContext C} {x : ℕ}
    (h : (linkVq plat v vq ctx).Linked x) :
    x = v ∨ ctx.Linked x := by
  rcases h with h | ⟨b, h⟩
  · rcases List.mem_append.mp h with h | h
    · exact Or.inr (Or.inl h)
    · exact Or.inl (List.mem_singleton.mp h)
  · exact (mem_of_mem_relinkHead h).imp_right Or.inr

/-- `iso_vq_alloc` links the VQ, whether or not it has counters. -/
theorem isoVqAlloc_eq (plat : Platform) (p : Params) (now v : ℕ) (percpu : Bool)
    (stale : ℤ) (klass : UInt32) (d : Dev C) :
    ∃ d', isoVqAlloc plat p now v percpu stale klass d = .ok d' ∧ d'.tx = d.tx ∧
      RxContext.Fewer (linkVq plat v
        { (Vq.init p now percpu klass : Vq C) with refcnt := if percpu then 0 else stale } d.rx)
        d'.rx := by
  obtain ⟨rx, hrx, -, -⟩ := RxContext.isoVqCalculateRates_eq p (linkVq plat v
    { (Vq.init p now percpu klass : Vq C) with refcnt := if percpu then 0 else stale } d.rx)
  refine ⟨{ d with
    rx := rx
    vqFreed := d.vqFreed.erase v
    vqLoop := reloop d.rx.vqBucket d.vqLoop (classHash plat klass) v }, ?_, rfl, ?_⟩
  · exact congrArg (fun x => lift x >>= fun rx => pure { d with
      rx := rx
      vqFreed := d.vqFreed.erase v
      vqLoop := reloop d.rx.vqBucket d.vqLoop (classHash plat klass) v }) hrx
  · exact ((RxContext.Reconfigured.refl _).isoVqCalculateRates.of_eq_ok hrx).fewer

theorem mem_of_mem_relinkTail {l : List ℕ} {a x : ℕ} (h : x ∈ relinkTail l a) : x = a ∨ x ∈ l := by
  rcases List.mem_append.mp h with h | h
  · exact Or.inr ((List.takeWhile_prefix _).subset h)
  · exact Or.inl (List.mem_singleton.mp h)

/-- What the device is after `iso_txc_alloc`, as far as packets can see. -/
theorem isoTxcAlloc_eq_ok {now k : ℕ} {rounds : List Bool} {klass : UInt32} {r : ℤ × Dev C}
    (h : isoTxcAlloc plat p now k rounds klass d = .ok r) :
    r.1 = 0 ∧ r.2.rx = d.rx ∧ (∀ x, r.2.tx.Linked x → x = k ∨ d.tx.Linked x) ∧
      (∀ j, (r.2.tx.txcs k).Linked j → j < (rounds.takeWhile id).length) ∧
      ∀ x, x ≠ k → ∀ j, (r.2.tx.txcs x).Linked j → (d.tx.txcs x).Linked j := by
  rw [walked_eq_ok h]
  let txc : TxClass C := TxClass.isoTxcPrealloc p now rounds (TxClass.init p now klass)
  let tx : TxContext C := { d.tx with
    txcs := Function.update d.tx.txcs k txc
    brk := max d.tx.brk (k + 1)
    isoTxBucket := addHead d.tx.isoTxBucket (classHash plat klass) k
    txcList := relinkTail d.tx.txcList k
    txcTotalWeight := s32 (d.tx.txcTotalWeight + txc.weight)
    freed := d.tx.freed.erase k }
  have hrates := ((TxContext.Reconfigured.refl tx).isoTxcRecomputeRates (p := p)).fewer
  refine ⟨rfl, rfl, fun x hx => ?_, fun j hj => ?_, fun x hne j hj => ?_⟩
  · rcases hrates.linked x hx with h | ⟨b, h⟩
    · exact (mem_of_mem_relinkTail h).imp_right Or.inl
    · rcases mem_addHead.mp h with ⟨rfl, -⟩ | h
      · exact Or.inl rfl
      · exact Or.inr (Or.inr ⟨b, h⟩)
  · have hnew := hrates.limiters k j hj
    have hself : tx.txcs k = txc := Function.update_self ..
    rw [hself, TxClass.isoTxcPrealloc_linked_iff] at hnew
    rcases hnew with (h | ⟨b, h⟩) | ⟨-, h⟩
    · exact absurd h List.not_mem_nil
    · exact absurd h List.not_mem_nil
    · exact lt_of_lt_of_eq h (Nat.zero_add _)
  · have hold := hrates.limiters x j hj
    have hother : tx.txcs x = d.tx.txcs x := Function.update_of_ne hne ..
    rw [hother] at hold
    exact hold

end Dev

/-! ### What a construction must do -/

namespace Build

variable {mapped : Bool} {s : Build C}

/-- Everything that can be reached has its memory. -/
structure Whole (s : Build C) : Prop where
  vq : ∀ v, s.rx.Linked v → (s.rx.vqs v).percpuStats ≠ none
  rl : ∀ k, s.tx.Linked k → s.rlQueue k = true
  rls : ∀ k, s.tx.Linked k → ∀ j, (s.tx.txcs k).Linked j → s.queue k j = true

/-- The command creates an object, and there is none yet: it gets to allocate. -/
def Op.Allocates (plat : Platform) (s : Build C) : Op → Prop
  | .createVq _ _ _ _ klass => s.isoVqFind plat klass = .ok none
  | .createTxc _ _ _ _ klass => s.tx.isoTxcFind plat klass = none
  | _ => False

/-- Every allocation of the creation of an object succeeds. -/
def Op.Served : Op → Prop
  | .createVq _ kmalloc percpu _ _ => kmalloc ≠ .fail ∧ percpu = true
  | .createTxc _ kmalloc queue rounds _ =>
    kmalloc ≠ .fail ∧ queue = true ∧ ∀ r ∈ rounds, r.links = true ∧ r.queue = true
  | _ => True

/-- No half-built object is published, and a creation that has not got all its memory fails and
changes nothing. -/
structure Constructs (mapped : Bool) (plat : Platform) (p : Params) (s : Build C) (op : Op) :
    Prop where
  whole : Ends (fun r => r.2.Whole) (fun _ => True) (s.exec mapped plat p op)
  honest : op.Allocates plat s → ¬ op.Served → ∃ ret ≠ 0, s.exec mapped plat p op = .ok (ret, s)

/-- The memory that is not looked at is there: the counters of a VQ that is allocated, everything
behind a class that is allocated, and the queues of the limiters that the background links, unless
the missing ones fault. -/
def Op.Provided (mapped : Bool) (plat : Platform) (s : Build C) : Op → Prop
  | .createVq _ kmalloc percpu _ klass =>
    s.isoVqFind plat klass = .ok none → kmalloc = .fail ∨ percpu = true
  | .createTxc _ kmalloc queue rounds klass => s.tx.isoTxcFind plat klass = none →
    kmalloc = .fail ∨ queue = true ∧ ∀ r ∈ rounds, r.links = true ∧ r.queue = true
  | .allocator k _ rounds => s.tx.Linked k → mapped = true →
    ∀ r ∈ rounds.takeWhile Round.links, r.queue = true
  | _ => True

theorem Whole.of_fewer (hs : s.Whole) {d : Dev C} (h : Dev.Fewer s.toDev d) :
    Whole { s with toDev := d } where
  vq v hv := fun hnone => hs.vq v (h.rx.linked v hv) ((h.rx.percpuStats v).symm.trans hnone)
  rl k hk := hs.rl k (h.tx.linked k hk)
  rls k hk j hj := hs.rls k (h.tx.linked k hk) j (h.tx.limiters k j hj)

theorem addr_eq_none_iff {alloc : Alloc} {brk : ℕ} {freed : List ℕ} :
    alloc.addr brk freed = none ↔ alloc = .fail := by
  cases alloc with
  | fail => exact iff_of_true rfl rfl
  | fresh => exact iff_of_false (Option.some_ne_none _) (by simp)
  | again a =>
    refine iff_of_false ?_ (by simp)
    rw [Alloc.addr]
    split_ifs
    · exact not_false
    · exact not_false

/-- Nothing was done, because nothing was to be created or `kmalloc` has failed. -/
theorem Constructs.refused (hs : s.Whole) {op : Op} (h : s.exec mapped plat p op = .ok (-1, s)) :
    Constructs mapped plat p s op where
  whole := by
    rw [h]
    exact hs
  honest _ _ := ⟨-1, by decide, h⟩

/-- A creation that never returns an error does what it must exactly if it gets all its memory. -/
theorem constructs_iff_of_allocates {op : Op} (halloc : op.Allocates plat s)
    (hzero : ∀ r, s.exec mapped plat p op = .ok r → r.1 = 0)
    (hwhole : op.Served → ∀ r, s.exec mapped plat p op = .ok r → r.2.Whole) :
    Constructs mapped plat p s op ↔ op.Served := by
  constructor
  · intro h
    by_contra hserved
    obtain ⟨ret, hret, heq⟩ := h.honest halloc hserved
    exact hret (hzero _ heq)
  · intro hserved
    exact ⟨ends_of_ok (hwhole hserved), fun _ hnot => absurd hserved hnot⟩

/-- An operation that creates nothing has no error to return. -/
theorem constructs_iff_of_not_allocates {op : Op} (halloc : ¬ op.Allocates plat s) :
    Constructs mapped plat p s op ↔
    Ends (fun r => r.2.Whole) (fun _ => True) (s.exec mapped plat p op) :=
  ⟨fun h => h.whole, fun h => ⟨h, fun h' => absurd h' halloc⟩⟩

/-! ### A VQ -/

theorem Whole.createVq (hs : s.Whole) {d' : Dev C} {v : ℕ} {vq : Vq C} (hvq : vq.percpuStats ≠ none)
    (htx : d'.tx = s.tx) (hrx : RxContext.Fewer (Dev.linkVq plat v vq s.rx) d'.rx) :
    Whole { s with toDev := d' } where
  vq x hx := by
    rw [hrx.percpuStats]
    by_cases hxv : x = v
    · have hself : (Dev.linkVq plat v vq s.rx).vqs x = vq := by
        rw [hxv]
        exact Function.update_self ..
      rw [hself]
      exact hvq
    · have hother : (Dev.linkVq plat v vq s.rx).vqs x = s.rx.vqs x := Function.update_of_ne hxv ..
      rw [hother]
      exact hs.vq x ((Dev.linked_linkVq (hrx.linked x hx)).resolve_left hxv)
  rl k hk := hs.rl k (htx ▸ hk)
  rls k hk j hj := hs.rls k (htx ▸ hk) j (htx ▸ hj)

theorem createVq_constructs_iff (hs : s.Whole) (now : ℕ) (kmalloc : Alloc)
    (percpu : Bool) (stale : ℤ) (klass : UInt32) :
    Constructs mapped plat p s (.createVq now kmalloc percpu stale klass) ↔
      Op.Provided mapped plat s (.createVq now kmalloc percpu stale klass) := by
  have hexec : s.exec mapped plat p (.createVq now kmalloc percpu stale klass) =
      (s.toDev.isoVqInstall plat p now kmalloc percpu stale klass >>= fun r => pure
        (r.1, { s with toDev := r.2 })) :=
    rfl
  cases hfind : s.isoVqFind plat klass with
  | error e =>
    rw [Dev.isoVqInstall, hfind] at hexec
    have hnot : s.isoVqFind plat klass ≠ .ok none := fun h => error_ne_ok _ _ (hfind.symm.trans h)
    refine iff_of_true ⟨?_, fun h => absurd h hnot⟩ fun h => absurd h hnot
    rw [hexec]
    trivial
  | ok found =>
    cases found with
    | some v =>
      rw [Dev.isoVqInstall, hfind] at hexec
      have hnot : s.isoVqFind plat klass ≠ .ok none := fun h =>
        Option.some_ne_none _ (Except.ok.inj (hfind.symm.trans h))
      exact iff_of_true (.refused hs hexec) fun h => absurd h hnot
    | none =>
      cases haddr : kmalloc.addr s.rx.brk s.vqFreed with
      | none =>
        rw [Dev.isoVqInstall, hfind, haddr] at hexec
        exact iff_of_true (.refused hs hexec) fun _ => Or.inl (addr_eq_none_iff.mp haddr)
      | some v =>
        obtain ⟨d', heq, htx, hrx⟩ := Dev.isoVqAlloc_eq plat p now v percpu stale klass s.toDev
        have hok : s.exec mapped plat p (.createVq now kmalloc percpu stale klass) =
            .ok (0, { s with toDev := d' }) := by
          rw [hexec, Dev.isoVqInstall, hfind, haddr]
          exact congrArg (fun x => (x >>= fun d => pure ((0 : ℤ), d)) >>= fun r =>
            pure (r.1, { s with toDev := r.2 })) heq
        have hmem : kmalloc ≠ .fail := fun h =>
          Option.some_ne_none _ (haddr.symm.trans (addr_eq_none_iff.mpr h))
        have halloc : Op.Allocates plat s (.createVq now kmalloc percpu stale klass) := hfind
        refine (constructs_iff_of_allocates halloc (fun r hr => ?_) fun hserved r hr => ?_).trans
          ⟨fun h _ => Or.inr h.2, fun h => ⟨hmem, (h hfind).resolve_left hmem⟩⟩
        · rw [← Except.ok.inj (hok.symm.trans hr)]
        · rw [← Except.ok.inj (hok.symm.trans hr)]
          refine hs.createVq ?_ htx hrx
          obtain rfl : percpu = true := hserved.2
          exact Option.some_ne_none _

/-! ### Limiters -/

theorem withQueues_of_old {brk : ℕ} {queues : List Bool} (hall : ∀ q ∈ queues, q = true)
    {old : ℕ → Bool} {j : ℕ} (hold : old j = true) : withQueues brk queues old j = true := by
  unfold withQueues
  split_ifs
  · cases hget : queues[j - brk]? with
    | none => exact hold
    | some q => exact hall q (List.mem_of_getElem? hget)
  · exact hold

/-- The limiters that are linked have the queues that `alloc_percpu` has returned.  Where a missing
one faults, there is none. -/
theorem preallocQueues_eq_ok {rounds : List Round} {queues : List Bool}
    (h : preallocQueues mapped rounds = .ok queues) :
    queues = (rounds.takeWhile Round.links).map Round.queue ∧
      (mapped = false → ∀ r ∈ rounds.takeWhile Round.links, r.queue = true) := by
  induction rounds generalizing queues with
  | nil =>
    rw [← Except.ok.inj h]
    exact ⟨rfl, fun _ _ hr => absurd hr List.not_mem_nil⟩
  | cons r rounds ih =>
    unfold preallocQueues at h
    split_ifs at h with hlinks
    · obtain ⟨queue, hqueue, h⟩ := bind_eq_ok h
      obtain ⟨rest, hrest, h⟩ := bind_eq_ok h
      obtain ⟨heq, hall⟩ := ih hrest
      unfold isoRlInit at hqueue
      split_ifs at hqueue with hor
      rw [List.takeWhile_cons_of_pos hlinks, ← Except.ok.inj h, ← Except.ok.inj hqueue, heq]
      refine ⟨rfl, fun hmapped => ?_⟩
      rw [hmapped, Bool.or_false] at hor
      exact List.forall_mem_cons.mpr ⟨hor, hall hmapped⟩
    · rw [List.takeWhile_cons_of_neg hlinks, ← Except.ok.inj h]
      exact ⟨rfl, fun _ _ hr => absurd hr List.not_mem_nil⟩

theorem preallocQueues_of_mapped (rounds : List Round) :
    ∃ queues, preallocQueues true rounds = .ok queues := by
  induction rounds with
  | nil => exact ⟨[], rfl⟩
  | cons r rounds ih =>
    obtain ⟨queues, hqueues⟩ := ih
    unfold preallocQueues isoRlInit
    split_ifs with hlinks hor
    · rw [hqueues]
      exact ⟨r.queue :: queues, rfl⟩
    · exact absurd (Bool.or_true _) hor
    · exact ⟨[], rfl⟩

/-- The queue of the limiter that round `i` links. -/
theorem withQueues_round (brk : ℕ) {i : ℕ} {rounds : List Round} {r : Round}
    (hr : (rounds.takeWhile Round.links)[i]? = some r) (old : ℕ → Bool) :
    withQueues brk ((rounds.takeWhile Round.links).map Round.queue) old (brk + i) = r.queue := by
  rw [withQueues, if_pos (Nat.le_add_right ..), Nat.add_sub_cancel_left, List.getElem?_map, hr]
  rfl

theorem length_takeWhile_links (rounds : List Round) :
    ((rounds.map Round.links).takeWhile id).length = (rounds.takeWhile Round.links).length := by
  rw [List.takeWhile_map, List.length_map]
  rfl

/-! ### A class -/

theorem isoTxcMarkInstall_eq_ok {now k : ℕ} {kmalloc : Alloc} {queue : Bool}
    {rounds : List Round} {klass : UInt32} (hfind : s.tx.isoTxcFind plat klass = none)
    (haddr : kmalloc.addr s.tx.brk s.tx.freed = some k) {r : ℤ × Build C}
    (h : s.isoTxcMarkInstall mapped plat p now kmalloc queue rounds klass = .ok r) :
    ∃ d', s.toDev.isoTxcAlloc plat p now k (rounds.map Round.links) klass = .ok (r.1, d') ∧
      r.2 = {
        toDev := d'
        rlQueue := Function.update s.rlQueue k queue
        queue := Function.update s.queue k
          (withQueues 0 ((rounds.takeWhile Round.links).map Round.queue) fun _ => false) } := by
  rw [isoTxcMarkInstall, hfind, haddr] at h
  obtain ⟨rlQueue, hrl, h⟩ := bind_eq_ok h
  obtain ⟨queues, hqueues, h⟩ := bind_eq_ok h
  obtain ⟨⟨ret, d'⟩, halloc, h⟩ := bind_eq_ok h
  obtain rfl : queue = rlQueue := by
    unfold isoRlInit at hrl
    split_ifs at hrl
    exact Except.ok.inj hrl
  rw [← Except.ok.inj h, ← (preallocQueues_eq_ok hqueues).1]
  exact ⟨d', halloc, rfl⟩

theorem Whole.createTxc (hs : s.Whole) {now k : ℕ} {rounds : List Round} {klass : UInt32}
    {ret : ℤ} {d' : Dev C} (halloc : s.toDev.isoTxcAlloc plat p now k (rounds.map Round.links)
      klass = .ok (ret, d'))
    (hall : ∀ r ∈ rounds, r.queue = true) :
    Whole {
      toDev := d'
      rlQueue := Function.update s.rlQueue k true
      queue := Function.update s.queue k
        (withQueues 0 ((rounds.takeWhile Round.links).map Round.queue) fun _ => false) } := by
  obtain ⟨-, hrx, hlinked, hnew, hold⟩ := Dev.isoTxcAlloc_eq_ok halloc
  refine ⟨fun v hv => ?_, fun x hx => ?_, fun x hx j hj => ?_⟩
  · dsimp only at hv ⊢
    rw [hrx] at hv ⊢
    exact hs.vq v hv
  · by_cases hxk : x = k
    · rw [hxk]
      exact Function.update_self ..
    · have hother : Function.update s.rlQueue k true x = s.rlQueue x := Function.update_of_ne hxk ..
      exact hother.trans (hs.rl x ((hlinked x hx).resolve_left hxk))
  · dsimp only
    by_cases hxk : x = k
    · subst hxk
      have hj := hnew j hj
      rw [length_takeWhile_links] at hj
      obtain ⟨r, hr⟩ : ∃ r, (rounds.takeWhile Round.links)[j]? = some r :=
        ⟨_, List.getElem?_eq_getElem hj⟩
      have hqueue := withQueues_round 0 hr fun _ => false
      rw [Nat.zero_add] at hqueue
      rw [Function.update_self, hqueue]
      exact hall r ((List.takeWhile_prefix _).subset (List.mem_of_getElem? hr))
    · rw [Function.update_of_ne hxk]
      exact hs.rls x ((hlinked x hx).resolve_left hxk) j (hold x hxk j hj)

theorem createTxc_constructs_iff (hs : s.Whole) (now : ℕ) (kmalloc : Alloc) (queue : Bool)
    (rounds : List Round) (klass : UInt32) :
    Constructs mapped plat p s (.createTxc now kmalloc queue rounds klass) ↔
      Op.Provided mapped plat s (.createTxc now kmalloc queue rounds klass) := by
  have hexec : s.exec mapped plat p (.createTxc now kmalloc queue rounds klass) =
      s.isoTxcMarkInstall mapped plat p now kmalloc queue rounds klass := rfl
  cases hfind : s.tx.isoTxcFind plat klass with
  | some k =>
    rw [isoTxcMarkInstall, hfind] at hexec
    exact iff_of_true (.refused hs hexec) fun h => nomatch hfind.symm.trans h
  | none =>
    cases haddr : kmalloc.addr s.tx.brk s.tx.freed with
    | none =>
      rw [isoTxcMarkInstall, hfind, haddr] at hexec
      exact iff_of_true (.refused hs hexec) fun _ => Or.inl (addr_eq_none_iff.mp haddr)
    | some k =>
      have hmem : kmalloc ≠ .fail := fun h => nomatch haddr.symm.trans (addr_eq_none_iff.mpr h)
      have halloc : Op.Allocates plat s (.createTxc now kmalloc queue rounds klass) := hfind
      refine (constructs_iff_of_allocates halloc (fun r hr => ?_) fun hserved r hr => ?_).trans
        ⟨fun h _ => Or.inr h.2, fun h => ⟨hmem, (h hfind).resolve_left hmem⟩⟩
      · obtain ⟨d', hd, -⟩ := isoTxcMarkInstall_eq_ok hfind haddr hr
        exact (Dev.isoTxcAlloc_eq_ok hd).1
      · obtain ⟨d', hd, heq⟩ := isoTxcMarkInstall_eq_ok hfind haddr hr
        rw [heq, hserved.2.1]
        exact hs.createTxc hd fun r hr => (hserved.2.2 r hr).2

/-! ### The background -/

theorem whole_allocator_iff (hs : s.Whole) {k now : ℕ} {rounds : List Round}
    (hall : mapped = false → ∀ r ∈ rounds.takeWhile Round.links, r.queue = true) :
    Whole { s with
      tx := s.tx.modifyTxc k (TxClass.isoTxcPrealloc p now (rounds.map Round.links))
      queue := Function.update s.queue k
        (withQueues (s.tx.txcs k).brk ((rounds.takeWhile Round.links).map Round.queue)
          (s.queue k)) } ↔
      Op.Provided mapped plat s (.allocator k now rounds) := by
  have hlinked : ∀ j, ((s.tx.modifyTxc k
      (TxClass.isoTxcPrealloc p now (rounds.map Round.links))).txcs k).Linked j ↔
      (s.tx.txcs k).Linked j ∨
        (s.tx.txcs k).brk ≤ j ∧ j < (s.tx.txcs k).brk + (rounds.takeWhile Round.links).length := by
    intro j
    rw [TxContext.modifyTxc_self, TxClass.isoTxcPrealloc_linked_iff, length_takeWhile_links]
  constructor
  · intro h hk _ r hr
    obtain ⟨i, hi⟩ := List.getElem?_of_mem hr
    obtain ⟨hlt, -⟩ := List.getElem?_eq_some_iff.mp hi
    have hqueue := h.rls k hk ((s.tx.txcs k).brk + i)
      ((hlinked _).mpr (Or.inr ⟨Nat.le_add_right .., Nat.add_lt_add_left hlt _⟩))
    dsimp only at hqueue
    rw [Function.update_self, withQueues_round _ hi] at hqueue
    exact hqueue
  · intro h
    refine ⟨hs.vq, hs.rl, fun x hx j hj => ?_⟩
    dsimp only at hj ⊢
    by_cases hxk : x = k
    · subst hxk
      have hqueues : ∀ r ∈ rounds.takeWhile Round.links, r.queue = true := by
        cases mapped with
        | false => exact hall rfl
        | true => exact h hx rfl
      rw [Function.update_self]
      rcases (hlinked j).mp hj with hold | ⟨hle, hlt⟩
      · exact withQueues_of_old (List.forall_mem_map.mpr hqueues) (hs.rls x hx j hold)
      · obtain ⟨i, rfl⟩ := Nat.exists_eq_add_of_le hle
        have hr := List.getElem?_eq_getElem (Nat.lt_of_add_lt_add_left hlt)
        rw [withQueues_round _ hr]
        exact hqueues _ (List.mem_of_getElem? hr)
    · rw [Function.update_of_ne hxk]
      refine hs.rls x hx j ?_
      rw [TxContext.modifyTxc_of_ne hxk] at hj
      exact hj

theorem allocator_constructs_iff (hs : s.Whole) (k now : ℕ) (rounds : List Round) :
    Constructs mapped plat p s (.allocator k now rounds) ↔
      Op.Provided mapped plat s (.allocator k now rounds) := by
  have hcreates : ¬ Op.Allocates plat s (.allocator k now rounds) := id
  rw [constructs_iff_of_not_allocates hcreates]
  cases hq : preallocQueues mapped rounds with
  | error e =>
    have hexec : s.exec mapped plat p (.allocator k now rounds) = .error e := by
      rw [exec, isoTxcAllocator, hq]
      rfl
    rw [hexec]
    refine iff_of_true trivial fun _ hmapped => ?_
    obtain ⟨queues, hok⟩ := preallocQueues_of_mapped rounds
    rw [hmapped, hok] at hq
    exact nomatch hq
  | ok queues =>
    obtain ⟨hqueues, hall⟩ := preallocQueues_eq_ok hq
    rw [exec, isoTxcAllocator, hq, hqueues]
    exact whole_allocator_iff hs hall

/-! ### Runs -/

theorem constructs_iff (hs : s.Whole) (op : Op) :
    Constructs mapped plat p s op ↔ op.Provided mapped plat s := by
  cases op with
  | createVq now kmalloc percpu stale klass =>
    exact createVq_constructs_iff hs now kmalloc percpu stale klass
  | createTxc now kmalloc queue rounds klass =>
    exact createTxc_constructs_iff hs now kmalloc queue rounds klass
  | allocator k now rounds => exact allocator_constructs_iff hs k now rounds
  | stateGet k now skb rx create trylock =>
    have htx := (TxContext.Fewer.refl s.tx).modifyTxc (k := k)
      (f := fun txc => (txc.isoStateGet plat now skb rx create trylock).2) fun _ =>
      TxClass.isoStateGet_linked
    exact iff_of_true ⟨hs.of_fewer ⟨.refl _, htx⟩, fun h => absurd h id⟩ trivial
  | command op hop =>
    refine iff_of_true ⟨ends_of_ok fun r hr => ?_, fun h => absurd h id⟩ trivial
    obtain ⟨⟨ret, d⟩, hexec, hr⟩ := bind_eq_ok (x := s.toDev.exec plat p op) hr
    rw [← Except.ok.inj hr]
    exact hs.of_fewer (Dev.exec_fewer hop hexec)

theorem init_whole (p : Params) (statsNow rcpNow : ℕ) :
    (init p statsNow rcpNow : Build C).Whole where
  vq v hv := absurd hv (by simp [init, Dev.init, Host.init, RxContext.init, RxContext.Linked])
  rl k hk := absurd hk (by simp [init, Dev.init, Host.init, TxContext.init, TxContext.Linked])
  rls k hk := absurd hk (by simp [init, Dev.init, Host.init, TxContext.init, TxContext.Linked])

/-- A run does what it must, operation by operation, exactly if each finds the memory that nobody
looks for. -/
theorem runs_construct_iff (mapped : Bool) (plat : Platform) (p : Params)
    (statsNow rcpNow : ℕ) (ops : List Op) :
    GuardedE (step mapped plat p) (Constructs mapped plat p)
      (init p statsNow rcpNow : Build C) ops ↔
      GuardedE (step mapped plat p) (fun s op => op.Provided mapped plat s)
        (init p statsNow rcpNow : Build C) ops := by
  refine guardedE_congr Whole (fun s op t hs hop ht => ?_) (fun s op hs => constructs_iff hs op)
    (init_whole p statsNow rcpNow) ops
  obtain ⟨r, hr, rfl⟩ := map_eq_ok ht
  exact ((constructs_iff hs op).mpr hop).whole.of_eq_ok hr

/-- Both commands return `0`, and have linked a VQ without counters and a class whose limiter has no
queues. -/
theorem runs_not_construct :
    ∃ s s' : Build Bool,
      exec true .x86 {} (init {} 0 0) (.createVq 0 .fresh false 0 1) = .ok (0, s) ∧
      0 ∈ s.rx.vqList ∧ (s.rx.vqs 0).percpuStats.isNone ∧
      exec true .x86 {} (init {} 0 0) (.createTxc 0 .fresh false [] 1) = .ok (0, s') ∧
      0 ∈ s'.tx.txcList ∧ s'.rlQueue 0 = false ∧
      ¬ GuardedE (step true .x86 {}) (Constructs true .x86 {}) (init {} 0 0 : Build Bool)
        [.createVq 0 .fresh false 0 1] ∧
      ¬ GuardedE (step true .x86 {}) (Constructs true .x86 {}) (init {} 0 0 : Build Bool)
        [.createTxc 0 .fresh false [] 1] := by
  have hvq := eq_ok_endOr (0, init {} 0 0)
    (x := exec true .x86 {} (init {} 0 0 : Build Bool) (.createVq 0 .fresh false 0 1))
    (by decide +kernel)
  have htxc := eq_ok_endOr (0, init {} 0 0)
    (x := exec true .x86 {} (init {} 0 0 : Build Bool) (.createTxc 0 .fresh false [] 1))
    (by decide +kernel)
  refine ⟨_, _, hvq, by decide +kernel, by decide +kernel, htxc, by decide +kernel,
    by decide +kernel, fun h => ?_, fun h => ?_⟩
  · exact h.1.whole.of_eq_ok hvq |>.vq 0 (Or.inl (by decide +kernel))
      (Option.isNone_iff_eq_none.mp (by decide +kernel))
  · exact absurd (h.1.whole.of_eq_ok htxc |>.rl 0 (Or.inl (by decide +kernel))) (by decide +kernel)

end Build

end EyeQ
