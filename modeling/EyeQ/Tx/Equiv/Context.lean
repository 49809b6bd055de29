import EyeQ.Tx.Context
import EyeQ.Tx.Equiv.Class

/-!
# The registry of classes: correctness

The classes of a context are in two indexes, the list and the hash table.  `Consistent` says that
both hold the same classes, each once, and that these are the classes created and not since deleted.

`step_stepped` says once what a command can do to a context: it creates a class, it deletes one, or
it leaves the indexes alone and changes classes in ways that concern no lookup (`SameIndex`).  From
this come the two invariants of a context: the tables of every class are in order (`Pooled.step`),
and the indexes are as far as they can be (`runFrom_indexed`).  They are not consistent:
`iso_sys_delete_txc` takes a class off the hash table and frees it, but nobody takes it off the
list.  So the context is consistent exactly as long as no class has been freed
(`Indexed.consistent_iff`), which `runFrom_consistent_iff` expresses by the commands of the run.
-/

namespace EyeQ

open Machine

variable {C : Type} {plat : Platform} {p : Params}

/-! ### Changes that concern no lookup -/

namespace TxClass

/-- The class is the same to `iso_txc_find` and to `iso_state_get`. -/
structure SameClass (txc txc' : TxClass C) : Prop where
  klass : txc'.klass = txc.klass
  table : SameTable txc txc'

theorem SameClass.refl (txc : TxClass C) : SameClass txc txc := ⟨rfl, SameTable.refl txc⟩

/-- The two classes differ in their configuration only. -/
def Reconfigured (txc txc' : TxClass C) : Prop :=
  ∃ rl weight minRate maxRate isStatic, txc' = { txc with
    rl := rl
    weight := weight
    minRate := minRate
    maxRate := maxRate
    isStatic := isStatic }

theorem Reconfigured.trans {txc₁ txc₂ txc₃ : TxClass C} (h : txc₁.Reconfigured txc₂)
    (h' : txc₂.Reconfigured txc₃) : txc₁.Reconfigured txc₃ := by
  obtain ⟨_, _, _, _, _, rfl⟩ := h
  obtain ⟨rl, weight, minRate, maxRate, isStatic, rfl⟩ := h'
  exact ⟨rl, weight, minRate, maxRate, isStatic, rfl⟩

theorem Reconfigured.sameClass {txc txc' : TxClass C} (h : txc.Reconfigured txc') :
    SameClass txc txc' := by
  obtain ⟨_, _, _, _, _, rfl⟩ := h
  exact ⟨rfl, rfl, rfl, rfl, rfl, rfl, rfl, fun _ => rfl, fun _ => rfl, fun _ => rfl⟩

/-- What does not read the cap is as it was. -/
theorem setCap_field {β : Type} (field : TxClass C → β)
    (hfield : ∀ (txc : TxClass C) isStatic maxRate,
      field { txc with isStatic := isStatic, maxRate := maxRate } = field txc) (rate : ℤ)
    (txc : TxClass C) : field (setCap p rate txc) = field txc := by
  unfold setCap
  split_ifs
  · exact hfield txc false p.isoMaxTxRate
  · exact hfield txc true rate.toNat

theorem setCap_reconfigured (rate : ℤ) (txc : TxClass C) :
    txc.Reconfigured (setCap p rate txc) := by
  unfold setCap
  split_ifs
  · exact ⟨_, _, _, _, _, rfl⟩
  · exact ⟨_, _, _, _, _, rfl⟩

theorem setVq_sameClass (v : ℕ) (txc : TxClass C) : SameClass txc (setVq v txc) :=
  ⟨rfl, rfl, rfl, rfl, rfl, rfl, rfl, fun _ => rfl, fun _ => rfl, fun _ => rfl⟩

theorem SameClass.trans {txc₁ txc₂ txc₃ : TxClass C} (h : SameClass txc₁ txc₂)
    (h' : SameClass txc₂ txc₃) : SameClass txc₁ txc₃ :=
  ⟨h'.klass.trans h.klass, h.table.trans h'.table⟩

/-- What is no part of the pool is as it was. -/
theorem isoTxcPrealloc_field {β : Type} (field : TxClass C → β) {now : ℕ}
    (hfield : ∀ txc, field (preallocOne p now txc) = field txc) (rounds : List Bool)
    (txc : TxClass C) : field (isoTxcPrealloc p now rounds txc) = field txc := by
  induction rounds generalizing txc with
  | nil => rfl
  | cons ok rounds ih =>
    cases ok with
    | false => rfl
    | true => exact (ih (preallocOne p now txc)).trans (hfield txc)

end TxClass

namespace TxContext

/-- The two contexts have the same indexes, over classes that are the same to every lookup. -/
structure SameIndex (ctx ctx' : TxContext C) : Prop where
  txcList : ctx'.txcList = ctx.txcList
  isoTxBucket : ctx'.isoTxBucket = ctx.isoTxBucket
  brk : ctx'.brk = ctx.brk
  freed : ctx'.freed = ctx.freed
  txc : ∀ k, TxClass.SameClass (ctx.txcs k) (ctx'.txcs k)

variable {ctx ctx' : TxContext C}

theorem SameIndex.refl (ctx : TxContext C) : SameIndex ctx ctx :=
  ⟨rfl, rfl, rfl, rfl, fun k => TxClass.SameClass.refl (ctx.txcs k)⟩

theorem SameIndex.modifyTxc (h : SameIndex ctx ctx') (k : ℕ) {f : TxClass C → TxClass C}
    (hf : ∀ txc, TxClass.SameClass txc (f txc)) : SameIndex ctx (ctx'.modifyTxc k f) where
  txcList := h.txcList
  isoTxBucket := h.isoTxBucket
  brk := h.brk
  freed := h.freed
  txc := by
    intro k'
    simp only [TxContext.modifyTxc, Function.update_apply]
    split_ifs with hk
    · subst hk
      exact (h.txc k').trans (hf _)
    · exact h.txc k'

theorem SameIndex.trans {ctx'' : TxContext C} (h : SameIndex ctx ctx') (h' : SameIndex ctx' ctx'') :
    SameIndex ctx ctx'' where
  txcList := h'.txcList.trans h.txcList
  isoTxBucket := h'.isoTxBucket.trans h.isoTxBucket
  brk := h'.brk.trans h.brk
  freed := h'.freed.trans h.freed
  txc := fun k => (h.txc k).trans (h'.txc k)

/-- The two contexts have the same classes, but for their configuration. -/
structure Reconfigured (ctx ctx' : TxContext C) : Prop where
  txcList : ctx'.txcList = ctx.txcList
  isoTxBucket : ctx'.isoTxBucket = ctx.isoTxBucket
  brk : ctx'.brk = ctx.brk
  freed : ctx'.freed = ctx.freed
  txc : ∀ k, (ctx.txcs k).Reconfigured (ctx'.txcs k)

theorem Reconfigured.refl (ctx : TxContext C) : Reconfigured ctx ctx :=
  ⟨rfl, rfl, rfl, rfl, fun _ => ⟨_, _, _, _, _, rfl⟩⟩

theorem Reconfigured.modifyTxc (h : Reconfigured ctx ctx') (k : ℕ) {f : TxClass C → TxClass C}
    (hf : ∀ txc : TxClass C, txc.Reconfigured (f txc)) : Reconfigured ctx (ctx'.modifyTxc k f) where
  txcList := h.txcList
  isoTxBucket := h.isoTxBucket
  brk := h.brk
  freed := h.freed
  txc := by
    intro k'
    simp only [TxContext.modifyTxc, Function.update_apply]
    split_ifs with hk
    · subst hk
      exact (h.txc k').trans (hf _)
    · exact h.txc k'

/-- What a field of a class that is no configuration reads is as it was. -/
theorem Reconfigured.field {β : Type} (h : Reconfigured ctx ctx') (field : TxClass C → β)
    (hfield : ∀ (txc : TxClass C) rl weight minRate maxRate isStatic, field { txc with
      rl := rl
      weight := weight
      minRate := minRate
      maxRate := maxRate
      isStatic := isStatic } = field txc) (k : ℕ) : field (ctx'.txcs k) = field (ctx.txcs k) := by
  obtain ⟨rl, weight, minRate, maxRate, isStatic, heq⟩ := h.txc k
  rw [heq, hfield]

theorem Reconfigured.sameIndex (h : Reconfigured ctx ctx') : SameIndex ctx ctx' :=
  ⟨h.txcList, h.isoTxBucket, h.brk, h.freed, fun k => (h.txc k).sameClass⟩

theorem Reconfigured.isoTxcRecomputeRates (h : Reconfigured ctx ctx') :
    Reconfigured ctx (isoTxcRecomputeRates p ctx') := by
  rw [TxContext.isoTxcRecomputeRates]
  split_ifs
  · exact h
  · exact run_invariant (P := Reconfigured ctx) _
      (fun _ k (_ : True) h => h.modifyTxc k fun _ => ⟨_, _, _, _, _, rfl⟩) h fun _ _ => trivial

/-- The rates are no part of the indexes. -/
theorem SameIndex.isoTxcRecomputeRates (h : SameIndex ctx ctx') :
    SameIndex ctx (isoTxcRecomputeRates p ctx') :=
  h.trans (Reconfigured.refl ctx').isoTxcRecomputeRates.sameIndex

theorem isoSysSetTxcWeight_reconfigured (klass : UInt32) (weight : ℤ) :
    Reconfigured ctx (isoSysSetTxcWeight plat p klass weight ctx).2 := by
  rw [isoSysSetTxcWeight]
  split
  · exact Reconfigured.refl ctx
  · rename_i k _
    split_ifs
    · exact Reconfigured.refl ctx
    · have hweight : Reconfigured ctx (ctx.modifyTxc k (TxClass.setWeight weight.toNat)) :=
        (Reconfigured.refl ctx).modifyTxc k fun _ => ⟨_, _, _, _, _, rfl⟩
      exact Reconfigured.isoTxcRecomputeRates { hweight with }

theorem isoSysSetTxcRate_reconfigured (klass : UInt32) (rate : ℤ) :
    Reconfigured ctx (isoSysSetTxcRate plat p klass rate ctx).2 := by
  rw [isoSysSetTxcRate]
  split
  · exact Reconfigured.refl ctx
  · split_ifs
    · exact Reconfigured.refl ctx
    · apply Reconfigured.isoTxcRecomputeRates
      exact (Reconfigured.refl ctx).modifyTxc _ (TxClass.setCap_reconfigured rate)

theorem SameIndex.isoTxcFind_eq (h : SameIndex ctx ctx') (plat : Platform) (klass : UInt32) :
    isoTxcFind plat ctx' klass = isoTxcFind plat ctx klass := by
  simp only [isoTxcFind, h.isoTxBucket, (h.txc _).klass]

/-! ### What a command does -/

/-- The command creates class `klass`, unless it exists. -/
def Op.Creates (klass : UInt32) : Op → Prop
  | .createTxc _ kmalloc _ klass' => kmalloc = true ∧ klass' = klass
  | _ => False

/-- The command deletes class `klass`, if it exists. -/
def Op.Deletes (klass : UInt32) : Op → Prop
  | .deleteTxc klass' => klass' = klass
  | _ => False

/-- The context in which class `klass`, which is `txc`, has been linked in both indexes. -/
def link (plat : Platform) (klass : UInt32) (txc : TxClass C) (ctx : TxContext C) : TxContext C :=
  { ctx with
    txcs := Function.update ctx.txcs ctx.brk txc
    brk := ctx.brk + 1
    isoTxBucket := addHead ctx.isoTxBucket (classHash plat klass) ctx.brk
    txcList := ctx.txcList ++ [ctx.brk] }

/-- The context in which the class at `k` has been taken off the hash table and freed. -/
def unhash (k : ℕ) (ctx : TxContext C) : TxContext C :=
  { ctx with isoTxBucket := unlink ctx.isoTxBucket k, freed := k :: ctx.freed }

/-- All that a command can do to the indexes. -/
inductive Stepped (plat : Platform) (ctx : TxContext C) : Op → TxContext C → Prop
  | same {op : Op} {ctx' : TxContext C}
      (hdel : ∀ klass, op.Deletes klass → isoTxcFind plat ctx klass = none)
      (hnew : ∀ klass, op.Creates klass → isoTxcFind plat ctx klass ≠ none)
      (hsame : SameIndex ctx ctx') : Stepped plat ctx op ctx'
  | created {now : ℕ} {rounds : List Bool} {klass : UInt32} {txc : TxClass C} {ctx' : TxContext C}
      (hfind : isoTxcFind plat ctx klass = none) (hklass : txc.klass = klass)
      (htxc : txc.Pooled plat) (hsame : SameIndex (link plat klass txc ctx) ctx') :
      Stepped plat ctx (.createTxc now true rounds klass) ctx'
  | deleted {klass : UInt32} {k : ℕ} {ctx' : TxContext C}
      (hfind : isoTxcFind plat ctx klass = some k) (hsame : SameIndex (unhash k ctx) ctx') :
      Stepped plat ctx (.deleteTxc klass) ctx'

theorem isoTxcMarkInstall_stepped (now : ℕ) (kmalloc : Bool) (rounds : List Bool)
    (klass : UInt32) :
    Stepped plat ctx (.createTxc now kmalloc rounds klass)
      (isoTxcMarkInstall plat p now kmalloc rounds klass ctx).2 := by
  rw [isoTxcMarkInstall]
  split
  · rename_i k hfind
    refine .same (fun _ h => h.elim) ?_ (SameIndex.refl ctx)
    rintro _ ⟨-, rfl⟩
    rw [hfind]
    exact Option.some_ne_none k
  · rename_i hfind
    cases kmalloc with
    | false => exact .same (fun _ h => h.elim) (fun _ h => nomatch h.1) (SameIndex.refl ctx)
    | true =>
      -- the rates of all classes are computed anew, which leaves the indexes alone
      refine .created hfind (TxClass.isoTxcPrealloc_field TxClass.klass (fun _ => rfl) rounds _)
        ((TxClass.init_pooled plat p now klass).isoTxcPrealloc p now rounds) ?_
      exact SameIndex.isoTxcRecomputeRates
        ⟨rfl, rfl, rfl, rfl, fun _ => TxClass.SameClass.refl _⟩

theorem isoSysDeleteTxc_stepped (klass : UInt32) :
    Stepped plat ctx (.deleteTxc klass) (isoSysDeleteTxc plat p klass ctx).2 := by
  rw [isoSysDeleteTxc]
  split
  · rename_i hfind
    refine .same ?_ (fun _ h => h.elim) (SameIndex.refl ctx)
    rintro _ rfl
    exact hfind
  · rename_i k hfind
    -- the rates are computed before the class is freed, which is not seen in them
    have hrates : SameIndex { ctx with isoTxBucket := unlink ctx.isoTxBucket k }
        (isoTxcRecomputeRates p { ctx with
          isoTxBucket := unlink ctx.isoTxBucket k
          txcTotalWeight := s32 (ctx.txcTotalWeight - (ctx.txcs k).weight) }) :=
      SameIndex.isoTxcRecomputeRates ⟨rfl, rfl, rfl, rfl, fun _ => TxClass.SameClass.refl _⟩
    exact .deleted hfind
      { hrates with freed := congrArg (List.cons k) hrates.freed }

theorem assoc_sameIndex (klass : UInt32) (vq : Option ℕ) :
    SameIndex ctx (assoc plat klass vq ctx) := by
  unfold assoc
  split
  · exact (SameIndex.refl ctx).modifyTxc _ (TxClass.setVq_sameClass _)
  · exact SameIndex.refl ctx

theorem step_stepped (plat : Platform) (p : Params) (ctx : TxContext C) (op : Op) :
    Stepped plat ctx op (step plat p ctx op) := by
  cases op with
  | createTxc now kmalloc rounds klass => exact isoTxcMarkInstall_stepped now kmalloc rounds klass
  | deleteTxc klass => exact isoSysDeleteTxc_stepped klass
  | setTxcWeight klass weight =>
    exact .same (fun _ h => h.elim) (fun _ h => h.elim) 
      (isoSysSetTxcWeight_reconfigured klass weight).sameIndex
  | setTxcRate klass rate =>
    exact .same (fun _ h => h.elim) (fun _ h => h.elim) 
      (isoSysSetTxcRate_reconfigured klass rate).sameIndex
  | assocTxcVq klass vq =>
    exact .same (fun _ h => h.elim) (fun _ h => h.elim) (assoc_sameIndex klass vq)
  | recomputeDev =>
    exact .same (fun _ h => h.elim) (fun _ h => h.elim)
      (SameIndex.refl ctx).isoTxcRecomputeRates

/-! ### The tables of the classes -/

/-- The tables of every class are in order. -/
def Pooled (plat : Platform) (ctx : TxContext C) : Prop := ∀ k, (ctx.txcs k).Pooled plat

theorem Pooled.modifyTxc (h : ctx.Pooled plat) (k : ℕ) {f : TxClass C → TxClass C}
    (hf : (f (ctx.txcs k)).Pooled plat) : (ctx.modifyTxc k f).Pooled plat := by
  intro k'
  simp only [TxContext.modifyTxc, Function.update_apply]
  split_ifs
  · exact hf
  · exact h k'

theorem Pooled.congr (h : ctx.Pooled plat) (same : SameIndex ctx ctx') : ctx'.Pooled plat :=
  fun k => (h k).congr (same.txc k).table

theorem Pooled.step (h : ctx.Pooled plat) (op : Op) : (step plat p ctx op).Pooled plat := by
  cases step_stepped plat p ctx op with
  | same _ _ hsame => exact h.congr hsame
  | created _ _ htxc hsame =>
    refine Pooled.congr (fun k => ?_) hsame
    simp only [link, Function.update_apply]
    split_ifs
    · exact htxc
    · exact h k
  | @deleted _ k _ _ hsame =>
    have hunhash : (unhash k ctx).Pooled plat := h
    exact hunhash.congr hsame

/-! ### The classes in the hash table -/

theorem txBuckets_nodup : txBuckets.Nodup := bucketIndexes_nodup (by decide)

theorem classHash_mem_txBuckets (plat : Platform) (klass : UInt32) :
    classHash plat klass ∈ txBuckets := by
  refine mem_bucketIndexes ?_
  rw [classHash, UInt32.toNat_and]
  exact Nat.lt_succ_of_le Nat.and_le_right

/-- Every class is on the chain of its name only, once. -/
abbrev Hashes (plat : Platform) (ctx : TxContext C) : Prop :=
  Chained ctx.isoTxBucket fun k => classHash plat (ctx.txcs k).klass

theorem Hashes.mem_hashed (h : ctx.Hashes plat) {k : ℕ} :
    k ∈ ctx.hashed ↔ ∃ b, k ∈ ctx.isoTxBucket b :=
  h.mem_entries fun _ => classHash_mem_txBuckets ..

theorem Hashes.hashed_nodup (h : ctx.Hashes plat) : ctx.hashed.Nodup :=
  h.entries_nodup txBuckets_nodup

theorem Hashes.mem_hashed_of_find (h : ctx.Hashes plat) {klass : UInt32} {k : ℕ}
    (hfind : isoTxcFind plat ctx klass = some k) : k ∈ ctx.hashed :=
  h.mem_hashed.2 ⟨_, List.mem_of_find?_eq_some hfind⟩

/-! ### The indexes -/

/-- What holds of the indexes in every run: the hash table has the classes that were not freed, and
the list has all that were ever created. -/
structure Indexed (plat : Platform) (ctx : TxContext C) : Prop where
  chained : Chained ctx.isoTxBucket fun k => classHash plat (ctx.txcs k).klass
  hashed_iff : ∀ k, (∃ b, k ∈ ctx.isoTxBucket b) ↔ k < ctx.brk ∧ k ∉ ctx.freed
  list_nodup : ctx.txcList.Nodup
  mem_list_iff : ∀ k, k ∈ ctx.txcList ↔ k < ctx.brk
  freed_lt : ∀ k ∈ ctx.freed, k < ctx.brk

theorem init_indexed (plat : Platform) (p : Params) : (init p : TxContext C).Indexed plat where
  chained := Chained.empty _
  hashed_iff := by simp [init]
  list_nodup := List.nodup_nil
  mem_list_iff := by simp [init]
  freed_lt := by simp [init]

namespace Indexed

theorem congr (h : ctx.Indexed plat) (same : SameIndex ctx ctx') : ctx'.Indexed plat where
  chained := by
    rw [same.isoTxBucket]
    exact h.chained.congr fun _ k _ => by rw [(same.txc k).klass]
  hashed_iff := by
    rw [same.isoTxBucket, same.brk, same.freed]
    exact h.hashed_iff
  list_nodup := by
    rw [same.txcList]
    exact h.list_nodup
  mem_list_iff := by
    rw [same.txcList, same.brk]
    exact h.mem_list_iff
  freed_lt := by
    rw [same.freed, same.brk]
    exact h.freed_lt

theorem brk_notMem (h : ctx.Indexed plat) (b : UInt32) : ctx.brk ∉ ctx.isoTxBucket b := fun hmem =>
  absurd ((h.hashed_iff ctx.brk).1 ⟨b, hmem⟩).1 (Nat.lt_irrefl ctx.brk)

theorem link (h : ctx.Indexed plat) {klass : UInt32} {txc : TxClass C}
    (hklass : txc.klass = klass) :
    (link plat klass txc ctx).Indexed plat where
  chained := by
    apply h.chained.addHead h.brk_notMem
    · show classHash plat (Function.update ctx.txcs ctx.brk txc ctx.brk).klass = _
      rw [Function.update_self, hklass]
    · intro k hk
      show classHash plat (Function.update ctx.txcs ctx.brk txc k).klass = _
      rw [Function.update_of_ne hk]
  hashed_iff := by
    intro k
    have hbrk : ctx.brk ∉ ctx.freed := fun hmem => Nat.lt_irrefl _ (h.freed_lt _ hmem)
    have hold := h.hashed_iff k
    simp only [TxContext.link, mem_addHead, exists_or, hold]
    constructor
    · rintro (⟨_, rfl, -⟩ | ⟨hlt, hfreed⟩)
      · exact ⟨Nat.lt_succ_self _, hbrk⟩
      · exact ⟨Nat.lt_succ_of_lt hlt, hfreed⟩
    · rintro ⟨hlt, hfreed⟩
      rcases Nat.lt_succ_iff_lt_or_eq.1 hlt with hlt | rfl
      · exact Or.inr ⟨hlt, hfreed⟩
      · exact Or.inl ⟨_, rfl, rfl⟩
  list_nodup := by
    have hbrk : ctx.brk ∉ ctx.txcList := fun hmem => Nat.lt_irrefl _ ((h.mem_list_iff _).1 hmem)
    show (ctx.txcList ++ [ctx.brk]).Nodup
    rw [List.nodup_append_comm]
    exact List.nodup_cons.2 ⟨hbrk, h.list_nodup⟩
  mem_list_iff := by
    intro k
    show k ∈ ctx.txcList ++ [ctx.brk] ↔ k < ctx.brk + 1
    rw [List.mem_append, List.mem_singleton, h.mem_list_iff, Nat.lt_succ_iff_lt_or_eq]
  freed_lt := fun k hk => Nat.lt_succ_of_lt (h.freed_lt k hk)

theorem unhash (h : ctx.Indexed plat) {k : ℕ} (hk : k < ctx.brk) :
    (unhash k ctx).Indexed plat where
  chained := h.chained.unlink k
  hashed_iff := by
    intro k'
    have hold := h.hashed_iff k'
    simp only [TxContext.unhash, h.chained.mem_unlink, exists_and_left, hold, List.mem_cons]
    tauto
  list_nodup := h.list_nodup
  mem_list_iff := h.mem_list_iff
  freed_lt := by
    intro k' hk'
    rcases List.mem_cons.1 hk' with rfl | hfreed
    · exact hk
    · exact h.freed_lt k' hfreed

/-- `iso_txc_find` finds a class exactly if one was created and not freed. -/
theorem isoTxcFind_ne_none_iff (h : ctx.Indexed plat) (klass : UInt32) :
    isoTxcFind plat ctx klass ≠ none ↔
      ∃ k, (k < ctx.brk ∧ k ∉ ctx.freed) ∧ (ctx.txcs k).klass = klass := by
  rw [isoTxcFind, Option.ne_none_iff_isSome, List.find?_isSome]
  simp only [decide_eq_true_eq]
  constructor
  · rintro ⟨k, hmem, hk⟩
    exact ⟨k, (h.hashed_iff k).1 ⟨_, hmem⟩, hk⟩
  · rintro ⟨k, hlive, hk⟩
    obtain ⟨b, hmem⟩ := (h.hashed_iff k).2 hlive
    -- it is on the chain of its class, which is the chain that is scanned
    have hb := h.chained.home_eq b k hmem
    rw [hk] at hb
    exact ⟨k, hb ▸ hmem, hk⟩

theorem lt_of_isoTxcFind (h : ctx.Indexed plat) {klass : UInt32} {k : ℕ}
    (hfind : isoTxcFind plat ctx klass = some k) : k < ctx.brk :=
  ((h.hashed_iff k).1 ⟨_, List.mem_of_find?_eq_some hfind⟩).1

theorem step (h : ctx.Indexed plat) (op : Op) : (step plat p ctx op).Indexed plat := by
  cases step_stepped plat p ctx op with
  | same _ _ hsame => exact h.congr hsame
  | created _ hklass _ hsame => exact (h.link hklass).congr hsame
  | deleted hfind hsame =>
    -- only a class that is found is freed, so nothing is freed twice
    exact (h.unhash (h.lt_of_isoTxcFind hfind)).congr hsame

end Indexed

theorem runFrom_indexed (plat : Platform) (p : Params) (ops : List Op) :
    (runFrom C plat p ops).Indexed plat :=
  run_invariant (P := Indexed plat) _ (fun _ op (_ : True) h => h.step op) (init_indexed plat p)
    fun _ _ => trivial

/-! ### Consistency -/

/-- Both indexes have the classes that were created and not since deleted, each once; so
`iso_txc_find` finds the classes that are on the list, and these are live. -/
structure Consistent (plat : Platform) (ctx : TxContext C) : Prop where
  list_nodup : ctx.txcList.Nodup
  bucket_nodup : ∀ b, (ctx.isoTxBucket b).Nodup
  bucket_unique : ∀ k b b', k ∈ ctx.isoTxBucket b → k ∈ ctx.isoTxBucket b' → b = b'
  list_iff_hashed : ∀ k, k ∈ ctx.txcList ↔ ∃ b, k ∈ ctx.isoTxBucket b
  list_iff_live : ∀ k, k ∈ ctx.txcList ↔ k < ctx.brk ∧ k ∉ ctx.freed
  find_iff : ∀ klass, isoTxcFind plat ctx klass ≠ none ↔
    ∃ k ∈ ctx.txcList, (ctx.txcs k).klass = klass

/-- A class that has been freed is on the list still. -/
theorem Indexed.consistent_iff (h : ctx.Indexed plat) : ctx.Consistent plat ↔ ctx.freed = [] := by
  constructor
  · intro hcons
    rw [List.eq_nil_iff_forall_not_mem]
    intro k hk
    -- nothing is ever taken off the list
    have hlist : k ∈ ctx.txcList := (h.mem_list_iff k).2 (h.freed_lt k hk)
    exact ((hcons.list_iff_live k).1 hlist).2 hk
  · intro hfreed
    have hlive : ∀ k, k ∈ ctx.txcList ↔ k < ctx.brk ∧ k ∉ ctx.freed := by
      intro k
      rw [h.mem_list_iff, hfreed]
      simp
    refine
      { list_nodup := h.list_nodup
        bucket_nodup := h.chained.nodup
        bucket_unique := fun k b b' hb hb' =>
          (h.chained.home_eq b k hb).symm.trans (h.chained.home_eq b' k hb')
        list_iff_hashed := fun k => (hlive k).trans (h.hashed_iff k).symm
        list_iff_live := hlive
        find_iff := ?_ }
    intro klass
    simp only [h.isoTxcFind_ne_none_iff, hlive]

/-! ### Runs -/

/-- A command deletes the class that an earlier one has created. -/
def Op.Undoes (a b : Op) : Prop := ∃ klass, a.Creates klass ∧ b.Deletes klass

/-- A class is freed when a command deletes it and it is found. -/
theorem freed_step_iff (ctx : TxContext C) (op : Op) :
    (step plat p ctx op).freed = [] ↔
      ctx.freed = [] ∧ ∀ klass, op.Deletes klass → isoTxcFind plat ctx klass = none := by
  cases step_stepped plat p ctx op with
  | same hdel _ hsame =>
    rw [hsame.freed]
    exact (and_iff_left hdel).symm
  | created _ _ _ hsame =>
    rw [hsame.freed]
    exact (and_iff_left fun _ h => h.elim).symm
  | @deleted klass k _ hfind hsame =>
    rw [hsame.freed]
    refine iff_of_false (List.cons_ne_nil _ _) ?_
    rintro ⟨-, hnone⟩
    rw [hnone klass rfl] at hfind
    exact nomatch hfind

/-- As long as nothing is freed, a class is found once a command has created it. -/
theorem isoTxcFind_step_iff (h : ctx.Indexed plat) {op : Op}
    (hfreed : (step plat p ctx op).freed = []) (klass : UInt32) :
    isoTxcFind plat (step plat p ctx op) klass ≠ none ↔
      isoTxcFind plat ctx klass ≠ none ∨ op.Creates klass := by
  have hstepped := step_stepped plat p ctx op
  generalize step plat p ctx op = ctx' at hstepped hfreed
  cases hstepped with
  | same _ hnew hsame =>
    rw [hsame.isoTxcFind_eq]
    exact (or_iff_left_of_imp (hnew klass)).symm
  | @created _ _ klass' txc _ _ hklass _ hsame =>
    rw [hsame.isoTxcFind_eq, (h.link hklass).isoTxcFind_ne_none_iff, h.isoTxcFind_ne_none_iff]
    -- the new class is at an address of its own
    have hold : ∀ k, k < ctx.brk →
        ((TxContext.link plat klass' txc ctx).txcs k) = ctx.txcs k := fun k hk =>
      Function.update_of_ne (Nat.ne_of_lt hk) ..
    constructor
    · rintro ⟨k, ⟨hlt, hnf⟩, hk⟩
      rcases Nat.lt_succ_iff_lt_or_eq.1 hlt with hlt | rfl
      · exact Or.inl ⟨k, ⟨hlt, hnf⟩, hold k hlt ▸ hk⟩
      · refine Or.inr ⟨rfl, ?_⟩
        rw [← hklass, ← hk]
        show _ = (Function.update ctx.txcs ctx.brk txc ctx.brk).klass
        rw [Function.update_self]
    · rintro (⟨k, ⟨hlt, hnf⟩, hk⟩ | ⟨-, rfl⟩)
      · exact ⟨k, ⟨Nat.lt_succ_of_lt hlt, hnf⟩, (hold k hlt).symm ▸ hk⟩
      · refine ⟨ctx.brk, ⟨Nat.lt_succ_self _, fun hmem => ?_⟩, ?_⟩
        · exact Nat.lt_irrefl _ (h.freed_lt _ hmem)
        · show (Function.update ctx.txcs ctx.brk txc ctx.brk).klass = _
          rw [Function.update_self, hklass]
  | deleted _ hsame =>
    rw [hsame.freed] at hfreed
    exact absurd hfreed (List.cons_ne_nil _ _)

/-- In a run, by induction from the right: whether a class has been freed, and as long as none has,
which classes are found. -/
theorem runFrom_freed_iff (plat : Platform) (p : Params) (ops : List Op) :
    ((runFrom C plat p ops).freed = [] ↔ ops.Pairwise fun a b => ¬ a.Undoes b) ∧
      ((runFrom C plat p ops).freed = [] → ∀ klass,
        isoTxcFind plat (runFrom C plat p ops) klass ≠ none ↔ ∃ op ∈ ops, op.Creates klass) := by
  induction ops using List.reverseRecOn with
  | nil => simp [runFrom, init, isoTxcFind]
  | append_singleton ops op ih =>
    have hrun : runFrom C plat p (ops ++ [op]) = step plat p (runFrom C plat p ops) op :=
      run_append ..
    have hindexed := runFrom_indexed (C := C) plat p ops
    rw [hrun]
    constructor
    · rw [freed_step_iff, List.pairwise_append, ih.1]
      simp only [List.pairwise_singleton, true_and, List.mem_singleton, forall_eq]
      refine and_congr_right fun hpair => ?_
      -- nothing has been freed yet, so the classes found are those created before
      have hfind := ih.2 (ih.1.2 hpair)
      constructor
      · rintro hnone a ha ⟨klass, hcreates, hdeletes⟩
        exact (hfind klass).2 ⟨a, ha, hcreates⟩ (hnone klass hdeletes)
      · intro hundo klass hdeletes
        by_contra hne
        obtain ⟨a, ha, hcreates⟩ := (hfind klass).1 hne
        exact hundo a ha ⟨klass, hcreates, hdeletes⟩
    · intro hfreed klass
      rw [isoTxcFind_step_iff hindexed hfreed, ih.2 ((freed_step_iff _ op).1 hfreed).1 klass]
      simp [or_and_right, exists_or]

/-- The registry is consistent after a run exactly if no command of the run deletes a class that an
earlier one created. -/
theorem runFrom_consistent_iff (plat : Platform) (p : Params) (ops : List Op) :
    (runFrom C plat p ops).Consistent plat ↔ ops.Pairwise fun a b => ¬ a.Undoes b :=
  (runFrom_indexed plat p ops).consistent_iff.trans (runFrom_freed_iff plat p ops).1

/-- A class is created and deleted: it is freed, it is not found, and it is on the list. -/
theorem runFrom_not_consistent :
    let ctx := runFrom Bool .x86 {} [.createTxc 0 true [] 1, .deleteTxc 1]
    ctx.txcList = [0] ∧ ctx.freed = [0] ∧ isoTxcFind .x86 ctx 1 = none ∧ ¬ ctx.Consistent .x86 := by
  intro ctx
  have hlist : ctx.txcList = [0] := by decide +kernel
  have hfreed : ctx.freed = [0] := by decide +kernel
  have hfind : isoTxcFind .x86 ctx 1 = none := by decide +kernel
  refine ⟨hlist, hfreed, hfind, fun hcons => ?_⟩
  have hlive := (hcons.list_iff_live 0).1 (by simp [hlist])
  exact hlive.2 (by simp [hfreed])

end TxContext

end EyeQ
