import Mathlib.Tactic.Ring
import EyeQ.Dev.Equiv.Registry

/-!
# Reference counts of VQs: correctness

`pointers d v` is the number of classes in the hash table that point to the VQ at `v`, which
`refcnt` is meant to count.  `Counted` is the invariant: the count is right for every address,
whether a VQ lives there or not.  Every command keeps it except `create_vq`, which sets `refcnt`
without a look at the classes.  That is right if no class points to the memory it is given.  But a
VQ that has been deleted is still found (`Stale`), so a class can be associated with it; if a new VQ
then gets its memory, that class points to a VQ whose count is zero.  The count is also wrong if
`alloc_percpu` fails, since `iso_vq_init` then returns before it sets `refcnt`, and `iso_vq_alloc`
goes on.

`Counted.refsExact` draws the consequences: `delete_vq` deletes no VQ that a class points to, and
the teardown of the device frees every VQ.
-/

namespace EyeQ

open Machine

variable {C : Type} {plat : Platform} {p : Params}

namespace TxContext

variable {ctx ctx' : TxContext C}

/-- The number of classes in the hash table that point to the VQ at `v`. -/
def pointers (ctx : TxContext C) (v : ℕ) : ℕ := ctx.hashed.countP fun k => (ctx.txcs k).vq = some v

theorem SamePtrs.pointers_eq (h : SamePtrs ctx ctx') (v : ℕ) :
    ctx'.pointers v = ctx.pointers v := by
  simp only [pointers, hashed, h.isoTxBucket, h.vq]

theorem SamePtrs.hashes (same : SamePtrs ctx ctx') (h : ctx.Hashes plat) : ctx'.Hashes plat := by
  show Chained ctx'.isoTxBucket _
  rw [same.isoTxBucket]
  apply h.congr
  intro _ k _
  rw [same.klass]

/-- A class that is associated with another VQ points to that one instead. -/
theorem Hashes.pointers_setVq (h : ctx.Hashes plat) {k : ℕ} (hk : k ∈ ctx.hashed) (v x : ℕ) :
    (ctx.modifyTxc k (TxClass.setVq v)).pointers x + (if (ctx.txcs k).vq = some x then 1 else 0) =
      ctx.pointers x + (if v = x then 1 else 0) := by
  have hwrite := countP_write (g := fun k => decide ((ctx.txcs k).vq = some x))
    (f := fun k' => decide (((ctx.modifyTxc k (TxClass.setVq v)).txcs k').vq = some x))
    h.hashed_nodup hk (fun k' hk' => by simp only [modifyTxc, Function.update_of_ne hk'])
  simpa [modifyTxc, TxClass.setVq, pointers, hashed] using hwrite

/-- A new class points to no VQ. -/
theorem pointers_linkTxc {k : ℕ} {txc : TxClass C} (hk : k ∉ ctx.hashed) (hvq : txc.vq = none)
    (v : ℕ) : (Dev.linkTxc plat k txc ctx).pointers v = ctx.pointers v := by
  have hperm : (Dev.linkTxc plat k txc ctx).hashed.Perm (k :: ctx.hashed) :=
    entries_addHead txBuckets_nodup (classHash_mem_txBuckets ..) k
  have hold : ∀ k' ∈ ctx.hashed, (Dev.linkTxc plat k txc ctx).txcs k' = ctx.txcs k' := by
    intro k' hk'
    have hne : k' ≠ k := fun heq => hk (heq ▸ hk')
    exact Function.update_of_ne hne ..
  have hnew : ((Dev.linkTxc plat k txc ctx).txcs k).vq = none := by
    show (Function.update ctx.txcs k txc k).vq = none
    rw [Function.update_self, hvq]
  rw [pointers, hperm.countP_eq, List.countP_cons, hnew]
  simp only [reduceCtorEq, decide_false, Bool.false_eq_true, if_false, Nat.add_zero, pointers]
  apply List.countP_congr
  intro k' hk'
  rw [hold k' hk']

/-- A class that is deleted points to no VQ any more. -/
theorem Hashes.pointers_unhash (h : ctx.Hashes plat) {k : ℕ} (hk : k ∈ ctx.hashed) (v : ℕ) :
    (unhash k ctx).pointers v + (if (ctx.txcs k).vq = some v then 1 else 0) = ctx.pointers v := by
  obtain ⟨b, hb⟩ := h.mem_hashed.1 hk
  have hmem : b ∈ txBuckets := h.home_eq b k hb ▸ classHash_mem_txBuckets ..
  have hperm : ctx.hashed.Perm (k :: (unhash k ctx).hashed) :=
    h.entries_unlink txBuckets_nodup hmem hb
  have hcons := hperm.countP_eq fun k => decide ((ctx.txcs k).vq = some v)
  rw [List.countP_cons] at hcons
  simp only [decide_eq_true_eq] at hcons
  exact hcons.symm

end TxContext

namespace Dev

open RxContext (SameVqs)
open TxContext (SamePtrs)

variable {d d' : Dev C}

/-! ### The invariant -/

/-- Every reference count is the number of references, and both registries are as far in order as
the teardown needs. -/
structure Counted (plat : Platform) (d : Dev C) : Prop where
  hashes : d.tx.Hashes plat
  hashed_iff : ∀ k, k ∈ d.tx.hashed ↔ k < d.tx.brk ∧ k ∉ d.tx.freed
  freed_nodup : d.tx.freed.Nodup
  freed_lt : ∀ k ∈ d.tx.freed, k < d.tx.brk
  list_nodup : d.rx.vqList.Nodup
  mem_list : ∀ v ∈ d.rx.vqList, v < d.rx.brk ∧ v ∉ d.vqFreed
  vqFreed_nodup : d.vqFreed.Nodup
  vqFreed_lt : ∀ v ∈ d.vqFreed, v < d.rx.brk
  refcnt : ∀ v, (d.rx.vqs v).refcnt = d.tx.pointers v

/-- A VQ is created in memory that no class points to, and `refcnt` is set. -/
def Op.CountsFromZero (plat : Platform) (d : Dev C) : Op → Prop
  | .createVq _ kmalloc percpu stale klass =>
    d.rx.isoVqFind plat klass = none → ∀ v, kmalloc.addr d.rx.brk d.vqFreed = some v →
      (∀ k ∈ d.tx.hashed, (d.tx.txcs k).vq ≠ some v) ∧ (percpu = true ∨ stale = 0)
  | _ => True

theorem init_counted (plat : Platform) (p : Params) (statsNow rcpNow : ℕ) :
    (init p statsNow rcpNow : Dev C).Counted plat := by
  have hhashed : (TxContext.init p : TxContext C).hashed = [] :=
    List.flatMap_eq_nil_iff.2 fun _ _ => rfl
  constructor
  · exact Chained.empty _
  · intro k
    show k ∈ (TxContext.init p : TxContext C).hashed ↔ k < 0 ∧ _
    simp [hhashed]
  · exact List.nodup_nil
  · exact fun _ h => absurd h List.not_mem_nil
  · exact List.nodup_nil
  · exact fun _ h => absurd h List.not_mem_nil
  · exact List.nodup_nil
  · exact fun _ h => absurd h List.not_mem_nil
  · intro v
    show (0 : ℤ) = (TxContext.init p : TxContext C).pointers v
    rw [TxContext.pointers, hhashed]
    rfl

theorem assoc_refcnt {ctx : RxContext C} {vqclass : UInt32} {v : ℕ}
    (hv : ctx.isoVqFind plat vqclass = some v) (old : Option ℕ) (x : ℕ) :
    ((ctx.assoc plat old vqclass).vqs x).refcnt =
      (ctx.vqs x).refcnt - (if old = some x then 1 else 0) + (if v = x then 1 else 0) := by
  have hinc : ∀ (ctx : RxContext C) (i : ℤ) (v : ℕ),
      ((ctx.modifyVq v fun vq => { vq with refcnt := vq.refcnt + i }).vqs x).refcnt =
        (ctx.vqs x).refcnt + if v = x then i else 0 := by
    intro ctx i v
    simp only [RxContext.modifyVq, Function.update_apply, eq_comm (a := x)]
    split_ifs with h
    · rw [h]
    · rw [add_zero]
  unfold RxContext.assoc
  rw [hv]
  cases old with
  | none => simp [hinc]
  | some o => simp [hinc, sub_eq_add_neg, apply_ite Neg.neg]

theorem release_refcnt (vq : Option ℕ) (d : Dev C) (x : ℕ) :
    ((d.release vq).rx.vqs x).refcnt = (d.rx.vqs x).refcnt - if vq = some x then 1 else 0 := by
  cases vq with
  | none => simp [release]
  | some v =>
    simp only [release, RxContext.modifyVq, Function.update_apply,
      Option.some.injEq, eq_comm (a := v)]
    split_ifs with h
    · rw [h]
    · rw [sub_zero]

namespace Counted

theorem congr (h : d.Counted plat) (hrx : SameVqs d.rx d'.rx) (htx : SamePtrs d.tx d'.tx)
    (hfreed : d'.vqFreed = d.vqFreed) : d'.Counted plat := by
  have hhashed : d'.tx.hashed = d.tx.hashed := by rw [TxContext.hashed, htx.isoTxBucket]; rfl
  constructor
  · exact htx.hashes h.hashes
  · rw [hhashed, htx.brk, htx.freed]
    exact h.hashed_iff
  · rw [htx.freed]
    exact h.freed_nodup
  · rw [htx.freed, htx.brk]
    exact h.freed_lt
  · rw [hrx.vqList]
    exact h.list_nodup
  · rw [hrx.vqList, hrx.brk, hfreed]
    exact h.mem_list
  · rw [hfreed]
    exact h.vqFreed_nodup
  · rw [hfreed, hrx.brk]
    exact h.vqFreed_lt
  · intro v
    rw [hrx.refcnt, htx.pointers_eq]
    exact h.refcnt v

theorem listed (h : d.Counted plat) : d.Listed :=
    ⟨h.list_nodup, h.mem_list, h.vqFreed_nodup, h.vqFreed_lt⟩

/-- A new VQ, in memory that no class points to. -/
theorem linkVq (h : d.Counted plat) {v : ℕ} {vq : Vq C} (hv : v = d.rx.brk ∨ v ∈ d.vqFreed)
    (hnone : ∀ k ∈ d.tx.hashed, (d.tx.txcs k).vq ≠ some v) (hzero : vq.refcnt = 0) :
    ({ d with rx := linkVq plat v vq d.rx, vqFreed := d.vqFreed.erase v } :
      Dev C).Counted plat := by
  have hlisted : ({ d with rx := Dev.linkVq plat v vq d.rx, vqFreed := d.vqFreed.erase v } :
      Dev C).Listed :=
    h.listed.link hv (RxContext.SameIndex.refl _) rfl
  refine
    { h with
      list_nodup := hlisted.nodup
      mem_list := hlisted.live
      vqFreed_nodup := hlisted.freed_nodup
      vqFreed_lt := hlisted.freed_lt
      refcnt := ?_ }
  intro x
  show (Function.update d.rx.vqs v vq x).refcnt = _
  by_cases hx : x = v
  · subst hx
    have hpointers : d.tx.pointers x = 0 := by
      rw [TxContext.pointers, List.countP_eq_zero]
      simpa using hnone
    rw [Function.update_self, hzero, hpointers]
    rfl
  · rw [Function.update_of_ne hx]
    exact h.refcnt x

theorem deleteVq (h : d.Counted plat) {v : ℕ} (hmem : v ∈ d.rx.vqList) :
    ({ d with
      rx := { d.rx with vqList := d.rx.vqList.erase v }
      vqFreed := v :: d.vqFreed } : Dev C).Counted plat := by
  have hlisted := h.listed.delete hmem
  exact
    { h with
      list_nodup := hlisted.nodup
      mem_list := hlisted.live
      vqFreed_nodup := hlisted.freed_nodup
      vqFreed_lt := hlisted.freed_lt }

theorem assoc (h : d.Counted plat) {txclass vqclass : UInt32} {k v : ℕ}
    (hk : d.tx.isoTxcFind plat txclass = some k) (hv : d.rx.isoVqFind plat vqclass = some v) :
    ({ d with
      rx := d.rx.assoc plat (d.tx.txcs k).vq vqclass
      tx := d.tx.modifyTxc k (TxClass.setVq v) } : Dev C).Counted plat := by
  have same : RxContext.SameIndex d.rx (d.rx.assoc plat (d.tx.txcs k).vq vqclass) :=
    RxContext.assoc_sameIndex ..
  have hmem : k ∈ d.tx.hashed := h.hashes.mem_hashed_of_find hk
  refine
    { h with
      hashes := ?_
      list_nodup := ?_
      mem_list := ?_
      vqFreed_lt := ?_
      refcnt := ?_ }
  · apply h.hashes.congr
    intro _ k' _
    have hklass := field_update TxClass.klass d.tx.txcs (a := k)
      (x := TxClass.setVq v (d.tx.txcs k)) rfl k'
    exact congrArg (classHash plat) hklass
  · rw [same.vqList]
    exact h.list_nodup
  · rw [same.vqList, same.brk]
    exact h.mem_list
  · rw [same.brk]
    exact h.vqFreed_lt
  · intro x
    -- one reference less to the old VQ and one more to the new one, on both sides
    have hpointers := h.hashes.pointers_setVq hmem v x
    show ((d.rx.assoc plat (d.tx.txcs k).vq vqclass).vqs x).refcnt =
      ((d.tx.modifyTxc k (TxClass.setVq v)).pointers x : ℤ)
    rw [assoc_refcnt hv, h.refcnt x]
    split_ifs at hpointers ⊢ <;> omega

/-- A new class, which points to no VQ. -/
theorem linkTxc (h : d.Counted plat) {k : ℕ} {txc : TxClass C} (hk : k = d.tx.brk ∨ k ∈ d.tx.freed)
    (hvq : txc.vq = none) :
    ({ d with tx := linkTxc plat k txc d.tx } : Dev C).Counted plat := by
  have hnew : k ∉ d.tx.hashed := by
    intro hmem
    obtain ⟨hlt, hnotFreed⟩ := (h.hashed_iff k).1 hmem
    rcases hk with rfl | hfreed
    · exact Nat.lt_irrefl _ hlt
    · exact hnotFreed hfreed
  have hfresh : ∀ b, k ∉ d.tx.isoTxBucket b := fun b hb => hnew (h.hashes.mem_hashed.2 ⟨b, hb⟩)
  have hperm : (Dev.linkTxc plat k txc d.tx).hashed.Perm (k :: d.tx.hashed) :=
    entries_addHead TxContext.txBuckets_nodup (TxContext.classHash_mem_txBuckets ..) k
  refine
    { h with
      hashes := ?_
      hashed_iff := ?_
      freed_nodup := h.freed_nodup.erase k
      freed_lt := ?_
      refcnt := ?_ }
  · apply h.hashes.addHead hfresh
    · show classHash plat (Function.update d.tx.txcs k txc k).klass = _
      rw [Function.update_self]
    · intro k' hk'
      show classHash plat (Function.update d.tx.txcs k txc k').klass = _
      rw [Function.update_of_ne hk']
  · intro k'
    show k' ∈ (Dev.linkTxc plat k txc d.tx).hashed ↔
      k' < max d.tx.brk (k + 1) ∧ k' ∉ d.tx.freed.erase k
    have hle : k ≤ d.tx.brk := hk.elim (fun heq => heq.le) fun hmem => (h.freed_lt k hmem).le
    rw [hperm.mem_iff, List.mem_cons, h.hashed_iff k', h.freed_nodup.mem_erase_iff]
    by_cases hk' : k' = k
    · subst hk'
      simp
    · have hmax : k' < max d.tx.brk (k + 1) ↔ k' < d.tx.brk := by omega
      simp [hk', hmax]
  · intro k' hk'
    exact lt_max_of_lt_left (h.freed_lt k' (List.mem_of_mem_erase hk'))
  · intro v
    rw [TxContext.pointers_linkTxc hnew hvq]
    exact h.refcnt v

theorem deleteTxc (h : d.Counted plat) {klass : UInt32} {k : ℕ}
    (hk : d.tx.isoTxcFind plat klass = some k) :
    ({ d with tx := TxContext.unhash k d.tx }.release (d.tx.txcs k).vq : Dev C).Counted plat := by
  have hmem : k ∈ d.tx.hashed := h.hashes.mem_hashed_of_find hk
  obtain ⟨hlt, hnotFreed⟩ := (h.hashed_iff k).1 hmem
  obtain ⟨b, hb⟩ := h.hashes.mem_hashed.1 hmem
  have hbucket : b ∈ TxContext.txBuckets :=
    h.hashes.home_eq b k hb ▸ TxContext.classHash_mem_txBuckets ..
  have hperm : d.tx.hashed.Perm (k :: (TxContext.unhash k d.tx).hashed) :=
    h.hashes.entries_unlink TxContext.txBuckets_nodup hbucket hb
  have hnodup := hperm.nodup_iff.1 h.hashes.hashed_nodup
  have same := release_sameIndex (d.tx.txcs k).vq { d with tx := TxContext.unhash k d.tx }
  have htx : ({ d with tx := TxContext.unhash k d.tx }.release (d.tx.txcs k).vq).tx =
      TxContext.unhash k d.tx := by
    cases (d.tx.txcs k).vq <;> rfl
  constructor
  · rw [htx]
    exact h.hashes.unlink k
  · intro k'
    rw [htx]
    show k' ∈ _ ↔ k' < d.tx.brk ∧ k' ∉ k :: d.tx.freed
    have hold := h.hashed_iff k'
    rw [hperm.mem_iff, List.mem_cons] at hold
    rw [List.mem_cons, not_or]
    by_cases hk' : k' = k
    · subst hk'
      simpa using (List.nodup_cons.1 hnodup).1
    · simpa [hk'] using hold
  · rw [htx]
    exact List.nodup_cons.2 ⟨hnotFreed, h.freed_nodup⟩
  · rw [htx]
    intro k' hk'
    rcases List.mem_cons.1 hk' with rfl | hk'
    · exact hlt
    · exact h.freed_lt k' hk'
  · rw [same.vqList]
    exact h.list_nodup
  · rw [same.vqList, same.brk, release_vqFreed]
    exact h.mem_list
  · rw [release_vqFreed]
    exact h.vqFreed_nodup
  · rw [release_vqFreed, same.brk]
    exact h.vqFreed_lt
  · intro v
    have hpointers := h.hashes.pointers_unhash hmem v
    rw [release_refcnt, htx]
    show (d.rx.vqs v).refcnt - _ = _
    rw [h.refcnt v]
    split_ifs at hpointers ⊢ <;> omega

theorem step (h : d.Counted plat) {op : Op} (hop : op.CountsFromZero plat d)
    (hstep : step plat p d op = .ok d') : d'.Counted plat := by
  have hstepped := (step_stepped plat p d op).of_eq_ok hstep
  cases hstepped with
  | same _ hrx htx hfreed _ => exact h.congr hrx htx hfreed
  | @vqCreated _ _ _ percpu stale _ _ _ hfind hv hrefcnt hrx htx hfreed _ =>
    obtain ⟨hnone, hset⟩ := hop hfind _ hv
    have hzero : (if percpu then 0 else stale) = 0 := by
      rcases hset with rfl | rfl
      · rfl
      · exact ite_self _
    rw [hzero] at hrefcnt
    have hlink := h.linkVq (Alloc.eq_brk_or_mem hv) hnone hrefcnt
    exact hlink.congr hrx (htx ▸ SamePtrs.refl _) hfreed
  | vqDeleted _ _ hmem => exact h.deleteVq hmem
  | associated hk hv => exact h.assoc hk hv
  | txcCreated hk hvq hrx htx hfreed _ =>
    have hlink := h.linkTxc (Alloc.eq_brk_or_mem hk) hvq
    exact hlink.congr (hrx ▸ SameVqs.refl _) htx hfreed
  | @txcDeleted _ k tx hk htx =>
    apply (h.deleteTxc hk).congr
    · cases (d.tx.txcs k).vq <;> exact SameVqs.refl _
    · cases (d.tx.txcs k).vq <;> exact htx
    · cases (d.tx.txcs k).vq <;> rfl

end Counted

/-! ### Teardown -/

/-- A class that is freed gives back its reference. -/
theorem foldl_exitTxc_refcnt (l : List ℕ) (d : Dev C) (v : ℕ) :
    ((l.foldl exitTxc d).rx.vqs v).refcnt =
      (d.rx.vqs v).refcnt - l.countP fun k => (d.tx.txcs k).vq = some v := by
  induction l generalizing d with
  | nil => simp
  | cons k l ih =>
    have htxcs : (exitTxc d k).tx.txcs = d.tx.txcs := by
      unfold exitTxc
      cases (d.tx.txcs k).vq <;> rfl
    have hone : ((exitTxc d k).rx.vqs v).refcnt =
        (d.rx.vqs v).refcnt - if (d.tx.txcs k).vq = some v then 1 else 0 := release_refcnt ..
    rw [List.foldl_cons, ih, htxcs, hone, List.countP_cons]
    simp only [decide_eq_true_eq]
    split_ifs <;> push_cast <;> ring

theorem foldl_exitTxc_vqList (l : List ℕ) (d : Dev C) :
    (l.foldl exitTxc d).rx.vqList = d.rx.vqList := by
  induction l generalizing d with
  | nil => rfl
  | cons k l ih => exact (ih _).trans (release_sameIndex ..).vqList

/-- VQs without references are freed, one after the other. -/
theorem foldlM_isoVqFree {l : List ℕ} {d : Dev C} (hlist : d.rx.vqList = l)
    (hrefcnt : ∀ v ∈ l, (d.rx.vqs v).refcnt ≤ 0) :
    ∃ d', l.foldlM (fun d v => d.isoVqFree v) d = .ok d' ∧ d'.rx.vqList = [] ∧
      ∀ v, v ∈ l ∨ v ∈ d.vqFreed → v ∈ d'.vqFreed := by
  induction l generalizing d with
  | nil => exact ⟨d, rfl, hlist, fun v hv => hv.resolve_left List.not_mem_nil⟩
  | cons v l ih =>
    have hhead : ¬ (d.rx.vqs v).refcnt > 0 := not_lt.2 (hrefcnt v (List.mem_cons_self ..))
    have hmem : v ∈ d.rx.vqList := hlist ▸ List.mem_cons_self ..
    have hrest : d.rx.vqList.erase v = l := by rw [hlist, List.erase_cons_head]
    obtain ⟨d', hrun, hnil, hfreed⟩ := ih
      (d := { d with rx := { d.rx with vqList := d.rx.vqList.erase v }, vqFreed := v :: d.vqFreed })
      hrest fun x hx => hrefcnt x (List.mem_cons_of_mem _ hx)
    refine ⟨d', ?_, hnil, ?_⟩
    · rw [List.foldlM_cons, isoVqFree, if_neg hhead, if_pos hmem]
      exact hrun
    · rintro x (hx | hx)
      · rcases List.mem_cons.1 hx with rfl | hx
        · exact hfreed x (Or.inr (List.mem_cons_self ..))
        · exact hfreed x (Or.inl hx)
      · exact hfreed x (Or.inr (List.mem_cons_of_mem _ hx))

/-! ### Exactness -/

/-- The reference count of every VQ that has not been deleted is the number of classes that point to
it; so a VQ that is deleted is one that no class points to, and after `iso_tx_exit` no reference is
left and `iso_vqs_exit` frees every VQ. -/
structure RefsExact (plat : Platform) (p : Params) (d : Dev C) : Prop where
  refcnt : ∀ v, v < d.rx.brk → v ∉ d.vqFreed → (d.rx.vqs v).refcnt = d.tx.pointers v
  delete : ∀ klass v d', d.rx.isoVqFind plat klass = some v →
    d.exec plat p (.deleteVq klass) = .ok (0, d') → ∀ k ∈ d.tx.hashed, (d.tx.txcs k).vq ≠ some v
  exit_refcnt : ∀ v, v < d.rx.brk → v ∉ d.vqFreed → (d.isoTxExit.rx.vqs v).refcnt = 0
  exit_frees : ∃ d', d.isoTxExit.isoVqsExit = .ok d' ∧ d'.rx.vqList = [] ∧
    ∀ v ∈ d.rx.vqList, v ∈ d'.vqFreed

theorem Counted.refsExact (h : d.Counted plat) (p : Params) : d.RefsExact plat p := by
  have hexit : ∀ v, (d.isoTxExit.rx.vqs v).refcnt = 0 := by
    intro v
    rw [isoTxExit, foldl_exitTxc_refcnt, h.refcnt v, TxContext.pointers, sub_self]
  have hlist : d.isoTxExit.rx.vqList = d.rx.vqList := foldl_exitTxc_vqList ..
  refine ⟨fun v _ _ => h.refcnt v, ?_, fun v _ _ => hexit v, ?_⟩
  · intro klass v d' hfind hexec k hk hvq
    -- were it not the last reference, the command would refuse
    have hpos : 0 < d.tx.pointers v := List.countP_pos_iff.2 ⟨k, hk, decide_eq_true hvq⟩
    have hrefuse : d.exec plat p (.deleteVq klass) = .ok (-einval, d) := by
      have hrefcnt : (d.rx.vqs v).refcnt > 0 := by
        rw [h.refcnt v]
        exact_mod_cast hpos
      rw [exec, isoSysDeleteVq, isoVqFind, hfind]
      exact if_pos hrefcnt
    rw [hrefuse] at hexec
    exact absurd (Prod.mk.inj (Except.ok.inj hexec)).1 (by decide)
  · obtain ⟨d', hrun, hnil, hfreed⟩ := foldlM_isoVqFree hlist fun v _ => (hexit v).le
    refine ⟨d', ?_, hnil, fun v hv => hfreed v (Or.inl hv)⟩
    rw [isoVqsExit, hlist]
    exact hrun

/-- In a run in which every VQ is created in memory that no class points to, and its reference count
is initialised, all reference counts are exact. -/
theorem runFrom_refsExact (plat : Platform) (p : Params) (statsNow rcpNow : ℕ) {ops : List Op}
    (hops : GuardedE (step plat p) (fun d op => op.CountsFromZero plat d)
      (init p statsNow rcpNow : Dev C) ops)
    (hrun : runFrom C plat p statsNow rcpNow ops = .ok d) : d.RefsExact plat p := by
  have hends : Ends (Counted plat) (fun _ => True) (runFrom C plat p statsNow rcpNow ops) :=
    hops.ends (fun _ _ hop h => ends_of_ok fun _ hstep => h.step hop hstep)
      (init_counted plat p statsNow rcpNow)
  exact (hends.of_eq_ok hrun).refsExact p

/-- A class is associated with a VQ. -/
theorem runFrom_refsExact_assoc :
    ∃ d, runFrom Bool .x86 {} 0 0
        [.createVq 0 .fresh true 0 1, .createTxc 0 .fresh [] 7, .assocTxcVq 7 1] = .ok d ∧
      d.tx.pointers 0 = 1 ∧ d.RefsExact .x86 {} := by
  have hrun := eq_ok_endOr (init {} 0 0) (x := runFrom Bool .x86 {} 0 0
    [.createVq 0 .fresh true 0 1, .createTxc 0 .fresh [] 7, .assocTxcVq 7 1]) (by decide +kernel)
  refine ⟨_, hrun, by decide +kernel, runFrom_refsExact .x86 {} 0 0 ?_ hrun⟩
  refine ⟨fun _ v _ => ⟨?_, Or.inl rfl⟩,
    fun _ _ => ⟨trivial, fun _ _ => ⟨trivial, fun _ _ => trivial⟩⟩⟩
  -- there is no class yet
  have hnone : (init {} 0 0 : Dev Bool).tx.hashed = [] := by decide +kernel
  rw [hnone]
  exact fun _ hk => absurd hk List.not_mem_nil

/-- A VQ is deleted, a class is associated with it, and a new VQ gets its memory: the class points
to the new VQ, which has no reference. -/
theorem runFrom_not_refsExact :
    ∃ d, runFrom Bool .x86 {} 0 0
        [.createTxc 0 .fresh [] 7, .createVq 0 .fresh true 0 1, .deleteVq 1, .assocTxcVq 7 1,
          .createVq 0 (.again 0) true 0 2] = .ok d ∧
      d.rx.vqList = [0] ∧ (d.rx.vqs 0).refcnt = 0 ∧ d.tx.pointers 0 = 1 ∧
      ¬ d.RefsExact .x86 {} := by
  have hrun := eq_ok_endOr (init {} 0 0) (x := runFrom Bool .x86 {} 0 0
    [.createTxc 0 .fresh [] 7, .createVq 0 .fresh true 0 1, .deleteVq 1, .assocTxcVq 7 1,
      .createVq 0 (.again 0) true 0 2]) (by decide +kernel)
  generalize hd : endOr (init {} 0 0) (runFrom Bool .x86 {} 0 0 _) = d at hrun
  have hrefcnt : (d.rx.vqs 0).refcnt = 0 := by rw [← hd]; decide +kernel
  have hpointers : d.tx.pointers 0 = 1 := by rw [← hd]; decide +kernel
  refine ⟨d, hrun, by rw [← hd]; decide +kernel, hrefcnt, hpointers, fun hexact => ?_⟩
  have h := hexact.refcnt 0 (by rw [← hd]; decide +kernel) (by rw [← hd]; decide +kernel)
  rw [hrefcnt, hpointers] at h
  exact absurd h (by decide)

end Dev

end EyeQ
