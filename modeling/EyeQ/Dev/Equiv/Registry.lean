import EyeQ.Dev.Basic
import EyeQ.Rx.Equiv.Config
import EyeQ.Tx.Equiv.Context

/-!
# The registry of VQs: correctness

`step_stepped` says once what a command can do to a device, as far as the two registries and the
reference counts go: it creates or deletes a VQ, creates or deletes a class, associates a class with
a VQ, or does nothing that concerns them.

The VQs of a device are in two indexes, the list and the hash table.  `Consistent` says that both
hold the same VQs, each once, and that these are the VQs created and not since deleted.  As long as
no VQ is deleted this is so (`Indexed`).  `iso_vq_free` takes a VQ off the list only, so the first
deletion leaves its hash chain with an address that is free; no command takes it off again, and when
the memory is used again the chain leads into another one or into itself (`Stale`).  So the registry
is consistent exactly as long as no VQ has been deleted, which is
`runFrom_consistent_iff_noneFreed`.
-/

namespace EyeQ

open Machine

variable {C : Type} {plat : Platform} {p : Params}

/-! ### Changes that concern neither index -/

namespace RxContext

/-- The two contexts have the same indexes, over VQs of the same classes. -/
structure SameIndex (ctx ctx' : RxContext C) : Prop where
  vqList : ctx'.vqList = ctx.vqList
  vqBucket : ctx'.vqBucket = ctx.vqBucket
  brk : ctx'.brk = ctx.brk
  klass : ∀ v, (ctx'.vqs v).klass = (ctx.vqs v).klass

/-- And the reference counts are the same. -/
structure SameVqs (ctx ctx' : RxContext C) : Prop extends SameIndex ctx ctx' where
  refcnt : ∀ v, (ctx'.vqs v).refcnt = (ctx.vqs v).refcnt

variable {ctx ctx' : RxContext C}

theorem SameIndex.refl (ctx : RxContext C) : SameIndex ctx ctx := ⟨rfl, rfl, rfl, fun _ => rfl⟩

theorem SameVqs.refl (ctx : RxContext C) : SameVqs ctx ctx := ⟨SameIndex.refl ctx, fun _ => rfl⟩

theorem SameIndex.modifyVq (h : SameIndex ctx ctx') (v : ℕ) {f : Vq C → Vq C}
    (hklass : (f (ctx'.vqs v)).klass = (ctx'.vqs v).klass) : SameIndex ctx (ctx'.modifyVq v f) :=
  { h with klass := fun v' => (field_update Vq.klass ctx'.vqs hklass v').trans (h.klass v') }

/-- The configuration of the VQs is no part of either. -/
theorem Reconfigured.sameVqs (h : Reconfigured ctx ctx') : SameVqs ctx ctx' where
  vqList := h.vqList
  vqBucket := h.vqBucket
  brk := h.brk
  klass := h.field Vq.klass fun _ _ _ _ => rfl
  refcnt := h.field Vq.refcnt fun _ _ _ _ => rfl

theorem assoc_sameIndex (ctx : RxContext C) (old : Option ℕ) (klass : UInt32) :
    SameIndex ctx (ctx.assoc plat old klass) := by
  unfold assoc
  split
  · exact SameIndex.refl ctx
  · apply SameIndex.modifyVq _ _ rfl
    cases old with
    | none => exact SameIndex.refl ctx
    | some o => exact (SameIndex.refl ctx).modifyVq o rfl

end RxContext

namespace TxContext

/-- The two contexts have the same hash table, over classes with the same names and VQs. -/
structure SamePtrs (ctx ctx' : TxContext C) : Prop where
  isoTxBucket : ctx'.isoTxBucket = ctx.isoTxBucket
  brk : ctx'.brk = ctx.brk
  freed : ctx'.freed = ctx.freed
  klass : ∀ k, (ctx'.txcs k).klass = (ctx.txcs k).klass
  vq : ∀ k, (ctx'.txcs k).vq = (ctx.txcs k).vq

variable {ctx ctx' : TxContext C}

theorem SamePtrs.refl (ctx : TxContext C) : SamePtrs ctx ctx :=
  ⟨rfl, rfl, rfl, fun _ => rfl, fun _ => rfl⟩

theorem SamePtrs.trans {ctx'' : TxContext C} (h : SamePtrs ctx ctx') (h' : SamePtrs ctx' ctx'') :
    SamePtrs ctx ctx'' where
  isoTxBucket := h'.isoTxBucket.trans h.isoTxBucket
  brk := h'.brk.trans h.brk
  freed := h'.freed.trans h.freed
  klass := fun k => (h'.klass k).trans (h.klass k)
  vq := fun k => (h'.vq k).trans (h.vq k)

theorem Reconfigured.samePtrs (h : Reconfigured ctx ctx') : SamePtrs ctx ctx' where
  isoTxBucket := h.isoTxBucket
  brk := h.brk
  freed := h.freed
  klass := h.field TxClass.klass fun _ _ _ _ _ _ => rfl
  vq := h.field TxClass.vq fun _ _ _ _ _ _ => rfl

theorem SamePtrs.isoTxcRecomputeRates (h : SamePtrs ctx ctx') :
    SamePtrs ctx (isoTxcRecomputeRates p ctx') :=
  h.trans (Reconfigured.refl ctx').isoTxcRecomputeRates.samePtrs

end TxContext

/-! ### What a command does -/

namespace Dev

open RxContext (SameVqs)
open TxContext (SamePtrs)

variable {d d' : Dev C}

/-- The context in which the VQ of class `klass` at `v`, which is `vq`, has been linked in both
indexes. -/
def linkVq (plat : Platform) (v : ℕ) (vq : Vq C) (ctx : RxContext C) : RxContext C :=
  { ctx with
    vqs := Function.update ctx.vqs v vq
    brk := max ctx.brk (v + 1)
    vqList := ctx.vqList ++ [v]
    vqBucket := relinkHead ctx.vqBucket (classHash plat vq.klass) v }

/-- The context in which class `klass` at `k`, which is `txc`, has been linked in the hash table. -/
def linkTxc (plat : Platform) (k : ℕ) (txc : TxClass C) (ctx : TxContext C) : TxContext C :=
  { ctx with
    txcs := Function.update ctx.txcs k txc
    brk := max ctx.brk (k + 1)
    isoTxBucket := addHead ctx.isoTxBucket (classHash plat txc.klass) k
    freed := ctx.freed.erase k }

/-- The command deletes a VQ: it finds one, and no class holds a reference to it. -/
def Op.FreesVq (plat : Platform) (d : Dev C) (op : Op) : Prop :=
  ∃ klass v, op = .deleteVq klass ∧ d.rx.isoVqFind plat klass = some v ∧ (d.rx.vqs v).refcnt ≤ 0

/-- All that a command can do to the registries and the reference counts. -/
inductive Stepped (plat : Platform) (d : Dev C) : Op → Dev C → Prop
  | same {op : Op} {d' : Dev C} (hop : ¬ op.FreesVq plat d) (hrx : SameVqs d.rx d'.rx)
      (htx : SamePtrs d.tx d'.tx) (hfreed : d'.vqFreed = d.vqFreed) (hloop : d'.vqLoop = d.vqLoop) :
      Stepped plat d op d'
  | vqCreated {now v : ℕ} {kmalloc : Alloc} {percpu : Bool} {stale : ℤ} {klass : UInt32} {vq : Vq C}
      {d' : Dev C} (hfind : d.rx.isoVqFind plat klass = none)
      (hv : kmalloc.addr d.rx.brk d.vqFreed = some v)
      (hrefcnt : vq.refcnt = if percpu then 0 else stale)
      (hrx : SameVqs (linkVq plat v vq d.rx) d'.rx) (htx : d'.tx = d.tx)
      (hfreed : d'.vqFreed = d.vqFreed.erase v)
      (hloop : d'.vqLoop = reloop d.rx.vqBucket d.vqLoop (classHash plat vq.klass) v) :
      Stepped plat d (.createVq now kmalloc percpu stale klass) d'
  | vqDeleted {klass : UInt32} {v : ℕ} (hfind : d.rx.isoVqFind plat klass = some v)
      (hrefcnt : (d.rx.vqs v).refcnt ≤ 0) (hmem : v ∈ d.rx.vqList) :
      Stepped plat d (.deleteVq klass)
        { d with rx := { d.rx with vqList := d.rx.vqList.erase v }, vqFreed := v :: d.vqFreed }
  | associated {txclass vqclass : UInt32} {k v : ℕ} (hk : d.tx.isoTxcFind plat txclass = some k)
      (hv : d.rx.isoVqFind plat vqclass = some v) :
      Stepped plat d (.assocTxcVq txclass vqclass)
        { d with
          rx := d.rx.assoc plat (d.tx.txcs k).vq vqclass
          tx := d.tx.modifyTxc k (TxClass.setVq v) }
  | txcCreated {now k : ℕ} {kmalloc : Alloc} {rounds : List Bool} {klass : UInt32} {txc : TxClass C}
      {d' : Dev C} (hk : kmalloc.addr d.tx.brk d.tx.freed = some k) (hvq : txc.vq = none)
      (hrx : d'.rx = d.rx) (htx : SamePtrs (linkTxc plat k txc d.tx) d'.tx)
      (hfreed : d'.vqFreed = d.vqFreed) (hloop : d'.vqLoop = d.vqLoop) :
      Stepped plat d (.createTxc now kmalloc rounds klass) d'
  | txcDeleted {klass : UInt32} {k : ℕ} {tx : TxContext C}
      (hk : d.tx.isoTxcFind plat klass = some k)
      (htx : SamePtrs (TxContext.unhash k d.tx) tx) :
      Stepped plat d (.deleteTxc klass) ({ d with tx := tx }.release (d.tx.txcs k).vq)

theorem Op.not_freesVq {op : Op} (h : ∀ klass, op ≠ .deleteVq klass) : ¬ op.FreesVq plat d := by
  rintro ⟨klass, -, hop, -⟩
  exact h klass hop

theorem Stepped.keep {op : Op} (hop : ¬ op.FreesVq plat d) : Stepped plat d op d :=
  .same hop (SameVqs.refl _) (SamePtrs.refl _) rfl rfl

theorem ends_lift {α : Type} {P : α → Prop} {x : Except Fault α} (h : Ends P (fun _ => True) x) :
    Ends P (fun _ => True) (lift x) := by
  cases x with
  | ok a => exact h
  | error f => trivial

/-- A walk along a chain that ends finds what there is to find. -/
theorem isoVqFind_ends (plat : Platform) (d : Dev C) (klass : UInt32) :
    Ends (fun found => found = d.rx.isoVqFind plat klass) (fun _ => True)
      (d.isoVqFind plat klass) := by
  rw [isoVqFind]
  cases hfind : d.rx.isoVqFind plat klass with
  | none => exact Ends.ite (fun _ => trivial) fun _ => rfl
  | some v => exact rfl

theorem isoVqInstall_stepped (now : ℕ) (kmalloc : Alloc) (percpu : Bool) (stale : ℤ)
    (klass : UInt32) :
    Ends (fun r => Stepped plat d (.createVq now kmalloc percpu stale klass) r.2) (fun _ => True)
      (d.isoVqInstall plat p now kmalloc percpu stale klass) := by
  rw [isoVqInstall]
  apply (isoVqFind_ends plat d klass).bind
  intro found hfound
  split
  · rename_i v hv
    -- the rates of all VQs are computed anew, which leaves the indexes alone
    have hrates := (RxContext.Reconfigured.refl (linkVq plat v
      { (Vq.init p now percpu klass : Vq C) with refcnt := if percpu then 0 else stale }
      d.rx)).isoVqCalculateRates (p := p)
    rw [isoVqAlloc]
    apply Ends.bind (P := Stepped plat d (.createVq now kmalloc percpu stale klass))
    · exact (ends_lift hrates).bind fun rx hrx =>
        .vqCreated hfound.symm hv rfl hrx.sameVqs rfl rfl rfl
    · exact fun _ h => h
  · exact Stepped.keep (Op.not_freesVq fun _ => Op.noConfusion)

theorem isoSysDeleteVq_stepped (klass : UInt32) :
    Ends (fun r => Stepped plat d (.deleteVq klass) r.2) (fun _ => True)
      (d.isoSysDeleteVq plat klass) := by
  rw [isoSysDeleteVq]
  apply (isoVqFind_ends plat d klass).bind
  intro found hfound
  subst hfound
  cases hfind : d.rx.isoVqFind plat klass with
  | none =>
    refine Stepped.keep ?_
    rintro ⟨klass', v, hklass, hv, -⟩
    rw [← Op.deleteVq.inj hklass, hfind] at hv
    exact nomatch hv
  | some v =>
    show Ends _ _ (ite ..)
    apply Ends.ite
    · intro hpos
      refine Stepped.keep ?_
      rintro ⟨klass', v', hklass, hv, hle⟩
      rw [← Op.deleteVq.inj hklass, hfind] at hv
      obtain rfl := Option.some.inj hv
      omega
    · intro hpos
      rw [isoVqFree, if_neg hpos]
      split_ifs with hmem
      · exact .vqDeleted hfind (by omega) hmem
      · trivial

theorem onVq_stepped {op : Op} (hop : ∀ klass, op ≠ .deleteVq klass) (klass : UInt32)
    {f : RxContext C → Except Fault (ℤ × RxContext C)}
    (hf : Ends (fun r => d.rx.Reconfigured r.2) (fun _ => True) (f d.rx)) :
    Ends (fun r => Stepped plat d op r.2) (fun _ => True) (d.onVq plat klass f) := by
  rw [onVq]
  apply (ends_true _).bind
  intro _ _
  apply (ends_lift hf).bind
  intro r hr
  exact Stepped.same (Op.not_freesVq hop) hr.sameVqs (SamePtrs.refl _) rfl rfl

theorem walked_stepped {op : Op} (hop : ∀ klass, op ≠ .deleteVq klass) (ret : ℤ) {tx : TxContext C}
    (htx : d.tx.Reconfigured tx) :
    Ends (fun r => Stepped plat d op r.2) (fun _ => True) (d.walked ret tx) := by
  rw [walked]
  apply Ends.ite
  · exact fun _ => trivial
  · intro _
    exact Stepped.same (Op.not_freesVq hop) (SameVqs.refl _) htx.samePtrs rfl rfl

theorem isoTxcMarkInstall_stepped (now : ℕ) (kmalloc : Alloc) (rounds : List Bool)
    (klass : UInt32) :
    Ends (fun r => Stepped plat d (.createTxc now kmalloc rounds klass) r.2) (fun _ => True)
      (d.isoTxcMarkInstall plat p now kmalloc rounds klass) := by
  rw [isoTxcMarkInstall]
  split
  · rename_i k hfind hk
    rw [isoTxcAlloc, walked]
    apply Ends.ite
    · exact fun _ => trivial
    · intro _
      have hklass : (TxClass.isoTxcPrealloc p now rounds (.init p now klass : TxClass C)).klass =
          klass :=
        TxClass.isoTxcPrealloc_field TxClass.klass (fun _ => rfl) rounds _
      have hvq : (TxClass.isoTxcPrealloc p now rounds (.init p now klass : TxClass C)).vq = none :=
        TxClass.isoTxcPrealloc_field TxClass.vq (fun _ => rfl) rounds _
      refine Stepped.txcCreated hk hvq rfl ?_ rfl rfl
      apply SamePtrs.isoTxcRecomputeRates
      refine ⟨?_, rfl, rfl, fun _ => rfl, fun _ => rfl⟩
      rw [linkTxc, hklass]
  · exact Stepped.keep (Op.not_freesVq fun _ => Op.noConfusion)

theorem isoSysDeleteTxc_stepped (klass : UInt32) :
    Ends (fun r => Stepped plat d (.deleteTxc klass) r.2) (fun _ => True)
      (d.isoSysDeleteTxc plat p klass) := by
  rw [isoSysDeleteTxc]
  split
  · exact Stepped.keep (Op.not_freesVq fun _ => Op.noConfusion)
  · rename_i k hfind
    rw [TxContext.isoSysDeleteTxc, hfind]
    -- the rates are computed before the class is freed, which is not seen in them
    have hrates : SamePtrs { d.tx with isoTxBucket := unlink d.tx.isoTxBucket k }
        (TxContext.isoTxcRecomputeRates p { d.tx with
          isoTxBucket := unlink d.tx.isoTxBucket k
          txcTotalWeight := s32 (d.tx.txcTotalWeight - (d.tx.txcs k).weight) }) :=
      SamePtrs.isoTxcRecomputeRates ⟨rfl, rfl, rfl, fun _ => rfl, fun _ => rfl⟩
    simp only [walked]
    split_ifs
    · trivial
    · exact .txcDeleted hfind { hrates with freed := congrArg (List.cons k) hrates.freed }

theorem isoSysAssocTxcVq_stepped (txclass vqclass : UInt32) :
    Ends (fun r => Stepped plat d (.assocTxcVq txclass vqclass) r.2) (fun _ => True)
      (d.isoSysAssocTxcVq plat txclass vqclass) := by
  rw [isoSysAssocTxcVq]
  split
  · exact Stepped.keep (Op.not_freesVq fun _ => Op.noConfusion)
  · rename_i k hk
    apply (ends_true _).bind
    intro _ _
    simp only [Host.isoSysAssocTxcVq, hk]
    cases hv : d.rx.isoVqFind plat vqclass with
    | none => exact Stepped.keep (Op.not_freesVq fun _ => Op.noConfusion)
    | some v =>
      have hassoc := Stepped.associated (d := d) hk hv
      simp only [TxContext.assoc, hk]
      exact hassoc

theorem isoSysRecomputeDev_stepped :
    Ends (fun r => Stepped plat d .recomputeDev r.2) (fun _ => True) (d.isoSysRecomputeDev p) := by
  have hop : ¬ Op.recomputeDev.FreesVq plat d := Op.not_freesVq fun _ => Op.noConfusion
  rw [isoSysRecomputeDev, walked]
  split_ifs
  · trivial
  · have htx : SamePtrs d.tx (d.tx.isoTxcRecomputeRates p) :=
      (SamePtrs.refl _).isoTxcRecomputeRates
    exact (ends_lift (RxContext.Reconfigured.refl d.rx).isoVqCalculateRates).bind fun _ hrx =>
      .same hop hrx.sameVqs htx rfl rfl

theorem step_stepped (plat : Platform) (p : Params) (d : Dev C) (op : Op) :
    Ends (Stepped plat d op) (fun _ => True) (step plat p d op) := by
  apply Ends.map
  cases op with
  | createTxc now kmalloc rounds klass => exact isoTxcMarkInstall_stepped ..
  | createVq now kmalloc percpu stale klass => exact isoVqInstall_stepped ..
  | assocTxcVq txclass vqclass => exact isoSysAssocTxcVq_stepped ..
  | setTxcWeight klass weight =>
    exact walked_stepped (fun _ => Op.noConfusion) _ (TxContext.isoSysSetTxcWeight_reconfigured ..)
  | setTxcRate klass rate =>
    exact walked_stepped (fun _ => Op.noConfusion) _ (TxContext.isoSysSetTxcRate_reconfigured ..)
  | setVqWeight klass weight =>
    exact onVq_stepped (fun _ => Op.noConfusion) _ (RxContext.isoSysSetVqWeight_reconfigured ..)
  | setVqRate klass rate =>
    exact onVq_stepped (fun _ => Op.noConfusion) _ (RxContext.isoSysSetVqRate_reconfigured ..)
  | deleteTxc klass => exact isoSysDeleteTxc_stepped ..
  | deleteVq klass => exact isoSysDeleteVq_stepped ..
  | recomputeDev => exact isoSysRecomputeDev_stepped

open RxContext (SameIndex)

theorem release_sameIndex (vq : Option ℕ) (d : Dev C) : SameIndex d.rx (d.release vq).rx := by
  cases vq with
  | none => exact SameIndex.refl d.rx
  | some v =>
    exact (SameIndex.refl d.rx).modifyVq v (f := fun vq => { vq with refcnt := vq.refcnt - 1 }) rfl

theorem release_vqFreed (vq : Option ℕ) (d : Dev C) : (d.release vq).vqFreed = d.vqFreed := by
  cases vq <;> rfl

theorem release_vqLoop (vq : Option ℕ) (d : Dev C) : (d.release vq).vqLoop = d.vqLoop := by
  cases vq <;> rfl

/-! ### The list -/

/-- The VQs on the list are there once, and are none of those given to `kfree`. -/
structure Listed (d : Dev C) : Prop where
  nodup : d.rx.vqList.Nodup
  live : ∀ v ∈ d.rx.vqList, v < d.rx.brk ∧ v ∉ d.vqFreed
  freed_nodup : d.vqFreed.Nodup
  freed_lt : ∀ v ∈ d.vqFreed, v < d.rx.brk

namespace Listed

theorem congr (h : d.Listed) (same : SameIndex d.rx d'.rx) (hfreed : d'.vqFreed = d.vqFreed) :
    d'.Listed := by
  constructor
  · rw [same.vqList]
    exact h.nodup
  · rw [same.vqList, same.brk, hfreed]
    exact h.live
  · rw [hfreed]
    exact h.freed_nodup
  · rw [hfreed, same.brk]
    exact h.freed_lt

/-- What `kmalloc` hands out is not on the list. -/
theorem new (h : d.Listed) {v : ℕ} (hv : v = d.rx.brk ∨ v ∈ d.vqFreed) : v ∉ d.rx.vqList := by
  intro hmem
  obtain ⟨hlt, hnotFreed⟩ := h.live v hmem
  rcases hv with rfl | hfreed
  · exact Nat.lt_irrefl _ hlt
  · exact hnotFreed hfreed

theorem link (h : d.Listed) {v : ℕ} (hv : v = d.rx.brk ∨ v ∈ d.vqFreed) {vq : Vq C}
    (hrx : SameIndex (linkVq plat v vq d.rx) d'.rx) (hfreed : d'.vqFreed = d.vqFreed.erase v) :
    d'.Listed := by
  have hlist : d'.rx.vqList = d.rx.vqList ++ [v] := hrx.vqList
  have hbrk : d'.rx.brk = max d.rx.brk (v + 1) := hrx.brk
  constructor
  · rw [hlist, List.nodup_append_comm]
    exact List.nodup_cons.2 ⟨h.new hv, h.nodup⟩
  · intro x hx
    rw [hlist] at hx
    rw [hbrk, hfreed]
    rcases List.mem_append.1 hx with hx | hx
    · obtain ⟨hlt, hnotFreed⟩ := h.live x hx
      exact ⟨lt_max_of_lt_left hlt, fun hmem => hnotFreed (List.mem_of_mem_erase hmem)⟩
    · obtain rfl := List.mem_singleton.1 hx
      exact ⟨lt_max_of_lt_right (Nat.lt_succ_self x), h.freed_nodup.not_mem_erase⟩
  · rw [hfreed]
    exact h.freed_nodup.erase v
  · intro x hx
    rw [hfreed] at hx
    rw [hbrk]
    exact lt_max_of_lt_left (h.freed_lt x (List.mem_of_mem_erase hx))

theorem delete (h : d.Listed) {v : ℕ} (hmem : v ∈ d.rx.vqList) :
    ({ d with
      rx := { d.rx with vqList := d.rx.vqList.erase v }
      vqFreed := v :: d.vqFreed } : Dev C).Listed := by
  obtain ⟨hlt, hnotFreed⟩ := h.live v hmem
  constructor
  · exact h.nodup.erase v
  · intro x hx
    obtain ⟨hne, hx⟩ := h.nodup.mem_erase_iff.1 hx
    obtain ⟨hxlt, hxfreed⟩ := h.live x hx
    exact ⟨hxlt, fun hmem => (List.mem_cons.1 hmem).elim hne hxfreed⟩
  · exact List.nodup_cons.2 ⟨hnotFreed, h.freed_nodup⟩
  · intro x hx
    rcases List.mem_cons.1 hx with rfl | hx
    · exact hlt
    · exact h.freed_lt x hx

theorem step (h : d.Listed) {op : Op} (hstep : step plat p d op = .ok d') : d'.Listed := by
  have hstepped := (step_stepped plat p d op).of_eq_ok hstep
  cases hstepped with
  | same _ hrx _ hfreed _ => exact h.congr hrx.toSameIndex hfreed
  | vqCreated _ hv _ hrx _ hfreed _ => exact h.link (Alloc.eq_brk_or_mem hv) hrx.toSameIndex hfreed
  | vqDeleted _ _ hmem => exact h.delete hmem
  | associated _ _ => exact h.congr (RxContext.assoc_sameIndex ..) rfl
  | txcCreated _ _ hrx _ hfreed _ => exact h.congr (hrx ▸ SameIndex.refl _) hfreed
  | @txcDeleted _ k tx _ _ =>
    exact h.congr (release_sameIndex (d.tx.txcs k).vq { d with tx := tx }) (release_vqFreed ..)

end Listed

theorem init_listed (p : Params) (statsNow rcpNow : ℕ) :
    (init p statsNow rcpNow : Dev C).Listed where
  nodup := List.nodup_nil
  live := fun _ hv => absurd hv List.not_mem_nil
  freed_nodup := List.nodup_nil
  freed_lt := fun _ hv => absurd hv List.not_mem_nil

/-! ### As long as no VQ is deleted -/

/-- The chain that `iso_vq_alloc` links a VQ on. -/
def vqHome (plat : Platform) (d : Dev C) (v : ℕ) : UInt32 := classHash plat (d.rx.vqs v).klass

theorem vqHome_of_link {v : ℕ} {vq : Vq C} (hrx : SameIndex (linkVq plat v vq d.rx) d'.rx) :
    d'.vqHome plat v = classHash plat vq.klass := by
  rw [vqHome, hrx.klass]
  show classHash plat (Function.update d.rx.vqs v vq v).klass = _
  rw [Function.update_self]

theorem vqHome_of_link_of_ne {v x : ℕ} {vq : Vq C} (hrx : SameIndex (linkVq plat v vq d.rx) d'.rx)
    (hx : x ≠ v) : d'.vqHome plat x = d.vqHome plat x := by
  rw [vqHome, hrx.klass]
  show classHash plat (Function.update d.rx.vqs v vq x).klass = _
  rw [Function.update_of_ne hx, vqHome]

/-- Both indexes have all VQs that were created, and nothing has been freed. -/
structure Indexed (plat : Platform) (d : Dev C) : Prop where
  chained : Chained d.rx.vqBucket (d.vqHome plat)
  hashed_iff : ∀ v, (∃ b, v ∈ d.rx.vqBucket b) ↔ v < d.rx.brk
  list_nodup : d.rx.vqList.Nodup
  mem_list_iff : ∀ v, v ∈ d.rx.vqList ↔ v < d.rx.brk
  freed : d.vqFreed = []
  loop : ∀ b, d.vqLoop b = false

theorem init_indexed (plat : Platform) (p : Params) (statsNow rcpNow : ℕ) :
    (init p statsNow rcpNow : Dev C).Indexed plat where
  chained := Chained.empty _
  hashed_iff := by simp [init, Host.init, RxContext.init]
  list_nodup := List.nodup_nil
  mem_list_iff := by simp [init, Host.init, RxContext.init]
  freed := rfl
  loop := fun _ => rfl

namespace Indexed

theorem congr (h : d.Indexed plat) (same : SameIndex d.rx d'.rx) (hfreed : d'.vqFreed = d.vqFreed)
    (hloop : d'.vqLoop = d.vqLoop) : d'.Indexed plat where
  chained := by
    rw [same.vqBucket]
    apply h.chained.congr
    intro _ v _
    rw [vqHome, vqHome, same.klass]
  hashed_iff := by
    rw [same.vqBucket, same.brk]
    exact h.hashed_iff
  list_nodup := by
    rw [same.vqList]
    exact h.list_nodup
  mem_list_iff := by
    rw [same.vqList, same.brk]
    exact h.mem_list_iff
  freed := hfreed.trans h.freed
  loop := by
    rw [hloop]
    exact h.loop

theorem brk_notMem (h : d.Indexed plat) (b : UInt32) : d.rx.brk ∉ d.rx.vqBucket b := by
  intro hmem
  have hlt := (h.hashed_iff d.rx.brk).1 ⟨b, hmem⟩
  exact Nat.lt_irrefl _ hlt

/-- A new VQ is at an address of its own. -/
theorem link (h : d.Indexed plat) {vq : Vq C} (hrx : SameIndex (linkVq plat d.rx.brk vq d.rx) d'.rx)
    (hfreed : d'.vqFreed = d.vqFreed.erase d.rx.brk)
    (hloop : d'.vqLoop = reloop d.rx.vqBucket d.vqLoop (classHash plat vq.klass) d.rx.brk) :
    d'.Indexed plat := by
  have hhead : d'.rx.vqBucket = addHead d.rx.vqBucket (classHash plat vq.klass) d.rx.brk :=
    hrx.vqBucket.trans (relinkHead_of_fresh h.brk_notMem)
  have hlist : d'.rx.vqList = d.rx.vqList ++ [d.rx.brk] := hrx.vqList
  have hbrk : d'.rx.brk = d.rx.brk + 1 := hrx.brk.trans (max_eq_right (Nat.le_succ _))
  have hnew : d.rx.brk ∉ d.rx.vqList := fun hmem => Nat.lt_irrefl _ ((h.mem_list_iff _).1 hmem)
  constructor
  · rw [hhead]
    exact h.chained.addHead h.brk_notMem (vqHome_of_link hrx) fun _ hv =>
      vqHome_of_link_of_ne hrx hv
  · intro v
    simp only [hhead, hbrk, mem_addHead, exists_or, h.hashed_iff, Nat.lt_succ_iff_lt_or_eq]
    simp [or_comm]
  · rw [hlist, List.nodup_append_comm]
    exact List.nodup_cons.2 ⟨hnew, h.list_nodup⟩
  · intro v
    rw [hlist, hbrk, List.mem_append, List.mem_singleton, h.mem_list_iff, Nat.lt_succ_iff_lt_or_eq]
  · rw [hfreed, h.freed, List.erase_nil]
  · intro b
    rw [hloop, reloop_of_notMem (h.brk_notMem b)]
    exact h.loop b

theorem step (h : d.Indexed plat) {op : Op} (hop : ¬ op.FreesVq plat d)
    (hstep : step plat p d op = .ok d') : d'.Indexed plat := by
  have hstepped := (step_stepped plat p d op).of_eq_ok hstep
  cases hstepped with
  | same _ hrx _ hfreed hloop => exact h.congr hrx.toSameIndex hfreed hloop
  | vqCreated _ hv _ hrx _ hfreed hloop =>
    rcases Alloc.eq_brk_or_mem hv with rfl | hmem
    · exact h.link hrx.toSameIndex hfreed hloop
    · rw [h.freed] at hmem
      exact absurd hmem List.not_mem_nil
  | vqDeleted hfind hrefcnt _ => exact absurd ⟨_, _, rfl, hfind, hrefcnt⟩ hop
  | associated _ _ => exact h.congr (RxContext.assoc_sameIndex ..) rfl rfl
  | txcCreated _ _ hrx _ hfreed hloop => exact h.congr (hrx ▸ SameIndex.refl _) hfreed hloop
  | @txcDeleted _ k tx _ _ =>
    have hrelease := release_sameIndex (d.tx.txcs k).vq { d with tx := tx }
    exact h.congr hrelease (release_vqFreed ..) (release_vqLoop ..)

end Indexed

/-! ### Once a VQ has been deleted -/

/-- A chain leads to a VQ that has been freed or belongs elsewhere, or back into itself. -/
structure Stale (plat : Platform) (d : Dev C) : Prop where
  lt : ∀ b, ∀ v ∈ d.rx.vqBucket b, v < d.rx.brk
  stale : ∃ b, d.vqLoop b = true ∨ ∃ v ∈ d.rx.vqBucket b, v ∈ d.vqFreed ∨ d.vqHome plat v ≠ b

namespace Stale

theorem congr (h : d.Stale plat) (same : SameIndex d.rx d'.rx)
    (hfreed : ∀ v, v ∈ d.vqFreed → v ∈ d'.vqFreed) (hloop : d'.vqLoop = d.vqLoop) :
    d'.Stale plat where
  lt := by
    rw [same.vqBucket, same.brk]
    exact h.lt
  stale := by
    obtain ⟨b, hstale⟩ := h.stale
    refine ⟨b, ?_⟩
    rw [hloop, same.vqBucket]
    rcases hstale with hb | ⟨v, hv, hvfreed | hhome⟩
    · exact Or.inl hb
    · exact Or.inr ⟨v, hv, Or.inl (hfreed v hvfreed)⟩
    · refine Or.inr ⟨v, hv, Or.inr ?_⟩
      rw [vqHome, same.klass]
      exact hhome

/-- A chain that leads to the new VQ from elsewhere is stale afterwards; one that does not is as
stale as before. -/
theorem link (h : d.Stale plat) {v : ℕ} {vq : Vq C} (hrx : SameIndex (linkVq plat v vq d.rx) d'.rx)
    (hfreed : d'.vqFreed = d.vqFreed.erase v)
    (hloop : d'.vqLoop = reloop d.rx.vqBucket d.vqLoop (classHash plat vq.klass) v) :
    d'.Stale plat := by
  have hbucket : d'.rx.vqBucket = relinkHead d.rx.vqBucket (classHash plat vq.klass) v :=
    hrx.vqBucket
  have hbrk : d'.rx.brk = max d.rx.brk (v + 1) := hrx.brk
  constructor
  · intro b x hx
    rw [hbucket] at hx
    rw [hbrk]
    rcases mem_of_mem_relinkHead hx with rfl | ⟨b', hx'⟩
    · exact lt_max_of_lt_right (Nat.lt_succ_self x)
    · exact lt_max_of_lt_left (h.lt b' x hx')
  · obtain ⟨b, hstale⟩ := h.stale
    refine ⟨b, ?_⟩
    rw [hloop, hbucket]
    by_cases hmem : v ∈ d.rx.vqBucket b
    · by_cases hb : b = classHash plat vq.klass
      · subst hb
        exact Or.inl (reloop_of_mem hmem)
      · refine Or.inr ⟨v, self_mem_relinkHead (Or.inr hmem), Or.inr ?_⟩
        rw [vqHome_of_link hrx]
        exact Ne.symm hb
    · rw [reloop_of_notMem hmem]
      rcases hstale with hb | ⟨x, hx, hstale⟩
      · exact Or.inl hb
      · have hne : x ≠ v := fun hxv => hmem (hxv ▸ hx)
        refine Or.inr ⟨x, mem_relinkHead_of_notMem hmem hx, ?_⟩
        rw [hfreed, List.mem_erase_of_ne hne, vqHome_of_link_of_ne hrx hne]
        exact hstale

theorem step (h : d.Stale plat) {op : Op} (hstep : step plat p d op = .ok d') : d'.Stale plat := by
  have hstepped := (step_stepped plat p d op).of_eq_ok hstep
  cases hstepped with
  | same _ hrx _ hfreed hloop => exact h.congr hrx.toSameIndex (fun _ hv => hfreed ▸ hv) hloop
  | vqCreated _ _ _ hrx _ hfreed hloop => exact h.link hrx.toSameIndex hfreed hloop
  | @vqDeleted klass v _ _ _ =>
    obtain ⟨b, hstale⟩ := h.stale
    refine ⟨h.lt, b, hstale.imp_right ?_⟩
    rintro ⟨x, hx, hstale⟩
    exact ⟨x, hx, hstale.imp_left (List.mem_cons_of_mem v)⟩
  | associated _ _ => exact h.congr (RxContext.assoc_sameIndex ..) (fun _ hv => hv) rfl
  | txcCreated _ _ hrx _ hfreed hloop =>
    exact h.congr (hrx ▸ SameIndex.refl _) (fun _ hv => hfreed ▸ hv) hloop
  | @txcDeleted _ k tx _ _ =>
    have hrelease := release_sameIndex (d.tx.txcs k).vq { d with tx := tx }
    exact h.congr hrelease (fun _ hv => (release_vqFreed ..).symm ▸ hv) (release_vqLoop ..)

end Stale

/-- The VQ that is deleted stays on its hash chain. -/
theorem Indexed.stale_of_frees (h : d.Indexed plat) {op : Op} (hop : op.FreesVq plat d)
    (hstep : Dev.step plat p d op = .ok d') : d'.Stale plat := by
  have hstepped := (step_stepped plat p d op).of_eq_ok hstep
  obtain ⟨klass, v, rfl, hfind, hrefcnt⟩ := hop
  cases hstepped with
  | same hop _ _ _ _ => exact absurd ⟨klass, v, rfl, hfind, hrefcnt⟩ hop
  | @vqDeleted _ v' hfind' _ _ =>
    refine ⟨fun b x hx => (h.hashed_iff x).1 ⟨b, hx⟩, classHash plat klass, Or.inr ⟨v', ?_, ?_⟩⟩
    · exact List.mem_of_find?_eq_some hfind'
    · exact Or.inl (List.mem_cons_self ..)

/-! ### Consistency -/

/-- Both indexes have the VQs that were created and not since deleted, each once; so `iso_vq_find`
finds the VQs that are on the list, and these are live. -/
structure Consistent (plat : Platform) (d : Dev C) : Prop where
  list_nodup : d.rx.vqList.Nodup
  chained : Chained d.rx.vqBucket (d.vqHome plat)
  ends : ∀ b, d.vqLoop b = false
  list_iff_hashed : ∀ v, v ∈ d.rx.vqList ↔ ∃ b, v ∈ d.rx.vqBucket b
  list_iff_live : ∀ v, v ∈ d.rx.vqList ↔ v < d.rx.brk ∧ v ∉ d.vqFreed
  find_iff : ∀ klass, d.isoVqFind plat klass ≠ .ok none ↔
    ∃ v ∈ d.rx.vqList, (d.rx.vqs v).klass = klass

theorem Indexed.consistent (h : d.Indexed plat) : d.Consistent plat := by
  have hhashed : ∀ v, v ∈ d.rx.vqList ↔ ∃ b, v ∈ d.rx.vqBucket b := by
    intro v
    rw [h.mem_list_iff, h.hashed_iff]
  refine
    { list_nodup := h.list_nodup
      chained := h.chained
      ends := h.loop
      list_iff_hashed := hhashed
      list_iff_live := fun v => by simp [h.mem_list_iff, h.freed]
      find_iff := fun klass => ?_ }
  have hfind : d.isoVqFind plat klass = .ok (d.rx.isoVqFind plat klass) := by
    rw [isoVqFind, h.loop]
    cases d.rx.isoVqFind plat klass <;> rfl
  rw [hfind, Ne, Except.ok.injEq, ← Ne, RxContext.isoVqFind, Option.ne_none_iff_isSome,
    List.find?_isSome]
  simp only [decide_eq_true_eq]
  constructor
  · rintro ⟨v, hmem, hv⟩
    exact ⟨v, (hhashed v).2 ⟨_, hmem⟩, hv⟩
  · rintro ⟨v, hmem, hv⟩
    obtain ⟨b, hb⟩ := (hhashed v).1 hmem
    -- it is on the chain of its class, which is the chain that is scanned
    have hhome := h.chained.home_eq b v hb
    rw [vqHome, hv] at hhome
    exact ⟨v, hhome ▸ hb, hv⟩

theorem Stale.not_consistent (h : d.Stale plat) : ¬ d.Consistent plat := by
  intro hcons
  obtain ⟨b, hloop | ⟨v, hv, hfreed | hhome⟩⟩ := h.stale
  · rw [hcons.ends b] at hloop
    exact nomatch hloop
  · have hlist := (hcons.list_iff_hashed v).2 ⟨b, hv⟩
    exact ((hcons.list_iff_live v).1 hlist).2 hfreed
  · exact hhome (hcons.chained.home_eq b v hv)

/-! ### Runs -/

/-- The registry is consistent after a run exactly if no command of the run deletes a VQ. -/
theorem runFrom_consistent_iff_noneFreed (plat : Platform) (p : Params) (statsNow rcpNow : ℕ)
    {ops : List Op} (hrun : runFrom C plat p statsNow rcpNow ops = .ok d) :
    d.Consistent plat ↔
      GuardedE (step plat p) (fun d op => ¬ op.FreesVq plat d)
        (init p statsNow rcpNow : Dev C) ops := by
  have hor := guardedE_or (Indexed plat) (Stale plat)
    (fun _ _ _ hgood hop hstep => hgood.step hop hstep)
    (fun _ _ _ hgood hop hstep => hgood.stale_of_frees (not_not.1 hop) hstep)
    (fun _ _ _ hbad hstep => hbad.step hstep) (init_indexed plat p statsNow rcpNow) hrun
  rcases hor with ⟨hguard, hgood⟩ | ⟨hguard, hbad⟩
  · exact iff_of_true hgood.consistent hguard
  · exact iff_of_false hbad.not_consistent hguard

/-- Two VQs are created and none is deleted. -/
theorem runFrom_consistent_twoVqs :
    ∃ d, runFrom Bool .x86 {} 0 0 [.createVq 0 .fresh true 0 1, .createVq 0 .fresh true 0 2] =
      .ok d ∧ d.Consistent .x86 := by
  have hrun := eq_ok_endOr (init {} 0 0) (x := runFrom Bool .x86 {} 0 0
    [.createVq 0 .fresh true 0 1, .createVq 0 .fresh true 0 2]) (by decide +kernel)
  refine ⟨_, hrun, (runFrom_consistent_iff_noneFreed .x86 {} 0 0 hrun).2 ?_⟩
  refine ⟨Op.not_freesVq fun _ => Op.noConfusion, fun _ _ => ?_⟩
  exact ⟨Op.not_freesVq fun _ => Op.noConfusion, fun _ _ => trivial⟩

/-- A VQ is created and deleted: it is free and off the list, but it is found, and the class cannot
be created again. -/
theorem runFrom_not_consistent_deletedVq :
    ∃ d, runFrom Bool .x86 {} 0 0 [.createVq 0 .fresh true 0 1, .deleteVq 1] = .ok d ∧
      d.rx.vqList = [] ∧ d.vqFreed = [0] ∧ d.isoVqFind .x86 1 = .ok (some 0) ∧
      Prod.fst <$> d.exec .x86 {} (.createVq 0 .fresh true 0 1) = .ok (-1) ∧
      ¬ d.Consistent .x86 := by
  have hrun := eq_ok_endOr (init {} 0 0) (x := runFrom Bool .x86 {} 0 0
    [.createVq 0 .fresh true 0 1, .deleteVq 1]) (by decide +kernel)
  have hlist : (endOr (init {} 0 0) (runFrom Bool .x86 {} 0 0
      [.createVq 0 .fresh true 0 1, .deleteVq 1])).rx.vqList = [] := by decide +kernel
  have hbucket : 0 ∈ (endOr (init {} 0 0) (runFrom Bool .x86 {} 0 0
      [.createVq 0 .fresh true 0 1, .deleteVq 1])).rx.vqBucket (classHash .x86 1) := by
    decide +kernel
  refine ⟨_, hrun, hlist, by decide +kernel, by decide +kernel, by decide +kernel, fun hcons => ?_⟩
  have hmem := (hcons.list_iff_hashed 0).2 ⟨_, hbucket⟩
  rw [hlist] at hmem
  exact absurd hmem List.not_mem_nil

end Dev

end EyeQ
