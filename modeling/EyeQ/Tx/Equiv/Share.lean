import Mathlib.Algebra.BigOperators.Ring.List
import Mathlib.Algebra.Order.BigOperators.Group.List
import Mathlib.Data.Nat.ModEq
import EyeQ.Tx.Equiv.Context

/-!
# The guarantees of the classes

`Guaranteed p ctx` says what the weights and the rates of the classes in the hash table are to each
other: `txc_total_weight` is the sum of the weights, the rates guaranteed add up to no more than the
link has, and if there is any weight, every class is guaranteed its share of the link, rounded down.

All commands compute the rates anew, but `iso_txc_recompute_rates` returns early when the weights
add up to zero.  So the rates of a context may be old ones.  They are not too high even so: old
rates are left only when the last weight is taken away, and up to then they added up
(`Balanced.recompute`).

The sum of the weights is an `int`.  `step_guaranteed` is for contexts where one more class does not
make it wrap.
-/

namespace EyeQ

open Machine

variable {C : Type} {plat : Platform} {p : Params}

/-- The quotients of the terms add up to no more than the quotient of the sum. -/
theorem sum_map_div_le (l : List ℕ) (f : ℕ → ℕ) (n : ℕ) :
    (l.map fun k => f k / n).sum ≤ (l.map f).sum / n := by
  induction l with
  | nil => simp
  | cons k l ih =>
    simp only [List.map_cons, List.sum_cons]
    exact (Nat.add_le_add_left ih _).trans (Nat.div_add_div_le_add_div ..)

namespace TxContext

variable {ctx ctx' : TxContext C}

/-- The sum of the weights of the classes in the hash table. -/
def weightSum (ctx : TxContext C) : ℕ := (ctx.hashed.map fun k => (ctx.txcs k).weight).sum

/-- The sum of the rates guaranteed to them. -/
def minRateSum (ctx : TxContext C) : ℕ := (ctx.hashed.map fun k => (ctx.txcs k).minRate).sum

/-- The guarantees add up. -/
structure Guaranteed (p : Params) (ctx : TxContext C) : Prop where
  total : ctx.txcTotalWeight = ctx.weightSum
  fits : ctx.minRateSum ≤ p.isoMaxTxRate
  share : 0 < ctx.txcTotalWeight → ∀ k ∈ ctx.hashed,
    ((ctx.txcs k).minRate : ℤ) = (ctx.txcs k).weight * p.isoMaxTxRate / ctx.txcTotalWeight

/-- And no weight is larger than the commands allow. -/
structure Shares (p : Params) (ctx : TxContext C) : Prop extends Guaranteed p ctx where
  weight_le : ∀ k ∈ ctx.hashed, (ctx.txcs k).weight ≤ 1024

/-- What has to hold before the rates are computed anew. -/
structure Balanced (p : Params) (ctx : TxContext C) : Prop where
  total : ctx.txcTotalWeight = ctx.weightSum
  weight_le : ∀ k ∈ ctx.hashed, (ctx.txcs k).weight ≤ 1024
  stale : ctx.txcTotalWeight = 0 → ctx.minRateSum ≤ p.isoMaxTxRate

/-! ### Computing the rates -/

theorem foldl_modifyTxc_txcs (f : TxClass C → TxClass C) {l : List ℕ} (hl : l.Nodup)
    (ctx : TxContext C) (k : ℕ) :
    (l.foldl (fun ctx k => ctx.modifyTxc k f) ctx).txcs k =
      if k ∈ l then f (ctx.txcs k) else ctx.txcs k := by
  induction l generalizing ctx with
  | nil => simp
  | cons x l ih =>
    obtain ⟨hx, hl⟩ := List.nodup_cons.1 hl
    rw [List.foldl_cons, ih hl]
    by_cases hk : k = x
    · subst hk
      simp [hx, modifyTxc]
    · simp [hk, modifyTxc]

theorem foldl_modifyTxc_total (f : TxClass C → TxClass C) (l : List ℕ) (ctx : TxContext C) :
    (l.foldl (fun ctx k => ctx.modifyTxc k f) ctx).txcTotalWeight = ctx.txcTotalWeight := by
  induction l generalizing ctx with
  | nil => rfl
  | cons x l ih => exact ih _

theorem foldl_modifyTxc_field {β : Type} (field : TxClass C → β) {f : TxClass C → TxClass C}
    (hf : ∀ txc, field (f txc) = field txc) (l : List ℕ) (ctx : TxContext C) (k : ℕ) :
    field ((l.foldl (fun ctx k => ctx.modifyTxc k f) ctx).txcs k) = field (ctx.txcs k) := by
  induction l generalizing ctx with
  | nil => rfl
  | cons x l ih =>
    rw [List.foldl_cons, ih]
    exact field_update field ctx.txcs (hf _) k

theorem isoTxcRecomputeRates_total (ctx : TxContext C) :
    (isoTxcRecomputeRates p ctx).txcTotalWeight = ctx.txcTotalWeight := by
  rw [isoTxcRecomputeRates]
  split_ifs
  · rfl
  · exact foldl_modifyTxc_total ..

theorem isoTxcRecomputeRates_hashed (ctx : TxContext C) :
    (isoTxcRecomputeRates p ctx).hashed = ctx.hashed := by
  have hsame := (SameIndex.refl ctx).isoTxcRecomputeRates (p := p)
  rw [hashed, hsame.isoTxBucket, hashed]

theorem isoTxcRecomputeRates_txcs (hl : ctx.txcList.Nodup)
    (htotal : ctx.txcTotalWeight ≠ 0) (k : ℕ) :
    (isoTxcRecomputeRates p ctx).txcs k =
      if k ∈ ctx.txcList then (ctx.txcs k).recomputeRate p ctx.txcTotalWeight else ctx.txcs k := by
  rw [isoTxcRecomputeRates, if_neg htotal]
  exact foldl_modifyTxc_txcs _ hl ctx k

/-- What is no rate is as it was. -/
theorem isoTxcRecomputeRates_field {β : Type} (field : TxClass C → β)
    (hfield : ∀ total txc, field (TxClass.recomputeRate p total txc) = field txc)
    (ctx : TxContext C) (k : ℕ) : field ((isoTxcRecomputeRates p ctx).txcs k) =
    field (ctx.txcs k) := by
  rw [isoTxcRecomputeRates]
  split_ifs
  · rfl
  · exact foldl_modifyTxc_field field (hfield _) ..

/-- The share of a class, computed without overflow. -/
theorem recomputeRate_minRate (hC : 1024 * p.isoMaxTxRate < 2 ^ 31) {txc : TxClass C}
    (hweight : txc.weight ≤ 1024) (total : ℕ) :
    (txc.recomputeRate p total).minRate = txc.weight * p.isoMaxTxRate / total := by
  have hle : txc.weight * p.isoMaxTxRate ≤ 1024 * p.isoMaxTxRate := Nat.mul_le_mul_right _ hweight
  simp only [TxClass.recomputeRate]
  rw [← Nat.cast_mul]
  generalize txc.weight * p.isoMaxTxRate = n at hle
  have hdiv : n / total ≤ n := Nat.div_le_self ..
  rw [s32_of_fits (by omega) (by omega), ← Int.ofNat_tdiv, u32OfInt]
  generalize n / total = q at hdiv
  omega

/-- The rates are computed anew, or there is no weight and they are the old ones. -/
theorem Balanced.recompute (h : ctx.Balanced p) (hC : 1024 * p.isoMaxTxRate < 2 ^ 31)
    (hlist : ctx.txcList.Nodup) (hmem : ∀ k ∈ ctx.hashed, k ∈ ctx.txcList) :
    (isoTxcRecomputeRates p ctx).Shares p := by
  have hweight : ∀ k, ((isoTxcRecomputeRates p ctx).txcs k).weight = (ctx.txcs k).weight :=
    isoTxcRecomputeRates_field TxClass.weight (fun _ _ => rfl) ctx
  have hsum : (isoTxcRecomputeRates p ctx).weightSum = ctx.weightSum := by
    simp only [weightSum, isoTxcRecomputeRates_hashed, hweight]
  have htotal : (isoTxcRecomputeRates p ctx).txcTotalWeight = ctx.weightSum := by
    rw [isoTxcRecomputeRates_total, h.total]
  have hweight_le : ∀ k ∈ (isoTxcRecomputeRates p ctx).hashed,
      ((isoTxcRecomputeRates p ctx).txcs k).weight ≤ 1024 := by
    intro k hk
    rw [hweight]
    exact h.weight_le k (isoTxcRecomputeRates_hashed ctx ▸ hk)
  refine ⟨?_, hweight_le⟩
  by_cases hzero : ctx.txcTotalWeight = 0
  · have hsame : isoTxcRecomputeRates p ctx = ctx := by rw [isoTxcRecomputeRates, if_pos hzero]
    rw [hsame]
    refine ⟨h.total, h.stale hzero, fun hpos => ?_⟩
    omega
  · have hpos : 0 < ctx.weightSum := by
      have := h.total
      omega
    have hrate : ∀ k ∈ ctx.hashed, ((isoTxcRecomputeRates p ctx).txcs k).minRate =
        (ctx.txcs k).weight * p.isoMaxTxRate / ctx.weightSum := by
      intro k hk
      rw [isoTxcRecomputeRates_txcs hlist hzero, if_pos (hmem k hk), h.total]
      exact recomputeRate_minRate hC (h.weight_le k hk) _
    refine ⟨?_, ?_, ?_⟩
    · rw [htotal, hsum]
    · calc (isoTxcRecomputeRates p ctx).minRateSum
          = (ctx.hashed.map fun k => (ctx.txcs k).weight * p.isoMaxTxRate / ctx.weightSum).sum := by
            rw [minRateSum, isoTxcRecomputeRates_hashed]
            exact congrArg List.sum (List.map_congr_left hrate)
        _ ≤ (ctx.hashed.map fun k => (ctx.txcs k).weight * p.isoMaxTxRate).sum / ctx.weightSum :=
            sum_map_div_le ..
        _ = ctx.weightSum * p.isoMaxTxRate / ctx.weightSum := by
            rw [List.sum_map_mul_right]; rfl
        _ = p.isoMaxTxRate := Nat.mul_div_cancel_left _ hpos
    · intro _ k hk
      rw [isoTxcRecomputeRates_hashed] at hk
      rw [hrate k hk, hweight, htotal]
      push_cast
      rfl

/-! ### The commands -/

theorem weightSum_modifyTxc (h : ctx.Hashes plat) {k : ℕ} (hk : k ∈ ctx.hashed)
    (f : TxClass C → TxClass C) :
    (ctx.modifyTxc k f).weightSum + (ctx.txcs k).weight =
    ctx.weightSum + (f (ctx.txcs k)).weight := by
  have hwrite := sum_map_write (g := fun k => (ctx.txcs k).weight)
    (f := fun k' => ((ctx.modifyTxc k f).txcs k').weight) h.hashed_nodup hk
    (fun k' hk' => by simp only [modifyTxc, Function.update_of_ne hk'])
  simpa [modifyTxc, weightSum, hashed] using hwrite

theorem Indexed.mem_list (h : ctx.Indexed plat) {k : ℕ} (hk : k ∈ ctx.hashed) :
    k ∈ ctx.txcList := by
  have hchained : ctx.Hashes plat := h.chained
  obtain ⟨hlt, -⟩ := (h.hashed_iff k).1 (hchained.mem_hashed.1 hk)
  exact (h.mem_list_iff k).2 hlt

/-- A new class has weight one. -/
theorem Shares.balanced_link (h : ctx.Shares p) (hidx : ctx.Indexed plat)
    (hroom : ctx.weightSum + 1024 < 2 ^ 31) (klass : UInt32) {txc : TxClass C}
    (hweight : txc.weight = 1) :
    ({ link plat klass txc ctx with
      txcTotalWeight := s32 (ctx.txcTotalWeight + txc.weight) } : TxContext C).Balanced p := by
  have hchained : ctx.Hashes plat := hidx.chained
  have hfresh : ∀ k ∈ ctx.hashed, k ≠ ctx.brk := by
    rintro k hk rfl
    obtain ⟨b, hb⟩ := hchained.mem_hashed.1 hk
    exact hidx.brk_notMem b hb
  have hperm : (link plat klass txc ctx).hashed.Perm (ctx.brk :: ctx.hashed) :=
    entries_addHead txBuckets_nodup (classHash_mem_txBuckets ..) _
  have hnew : (link plat klass txc ctx).txcs ctx.brk = txc := Function.update_self ..
  have hold : ∀ k ∈ ctx.hashed, (link plat klass txc ctx).txcs k = ctx.txcs k := fun k hk =>
    Function.update_of_ne (hfresh k hk) ..
  have hsum : (link plat klass txc ctx).weightSum = 1 + ctx.weightSum := by
    rw [weightSum, (hperm.map _).sum_eq, List.map_cons, List.sum_cons, hnew, hweight, weightSum]
    congr 2
    exact List.map_congr_left fun k hk => by rw [hold k hk]
  have htotal : s32 (ctx.txcTotalWeight + txc.weight) = ctx.weightSum + 1 := by
    rw [h.total, hweight]
    exact s32_of_fits (by omega) (by omega)
  constructor
  · show s32 _ = ((link plat klass txc ctx).weightSum : ℤ)
    rw [htotal, hsum]
    push_cast
    ring
  · intro k hk
    show ((link plat klass txc ctx).txcs k).weight ≤ 1024
    rcases List.mem_cons.1 (hperm.mem_iff.1 hk) with rfl | hk
    · rw [hnew, hweight]
      decide
    · rw [hold k hk]
      exact h.weight_le k hk
  · intro hzero
    have hzero : s32 (ctx.txcTotalWeight + txc.weight) = 0 := hzero
    omega

/-- A class is deleted, and if it was the last with a weight, the others keep their rates. -/
theorem Shares.balanced_unhash (h : ctx.Shares p) (hidx : ctx.Indexed plat)
    (hroom : ctx.weightSum + 1024 < 2 ^ 31) {k : ℕ} (hk : k ∈ ctx.hashed) :
    ({ ctx with
      isoTxBucket := unlink ctx.isoTxBucket k
      txcTotalWeight := s32 (ctx.txcTotalWeight - (ctx.txcs k).weight) } :
        TxContext C).Balanced p := by
  have hchained : ctx.Hashes plat := hidx.chained
  obtain ⟨b, hb⟩ := hchained.mem_hashed.1 hk
  have hmem : b ∈ txBuckets := hchained.home_eq b k hb ▸ classHash_mem_txBuckets ..
  have hperm : ctx.hashed.Perm (k :: (unhash k ctx).hashed) :=
    hchained.entries_unlink txBuckets_nodup hmem hb
  have hsum : ctx.weightSum = (ctx.txcs k).weight + (unhash k ctx).weightSum := by
    rw [weightSum, (hperm.map _).sum_eq, List.map_cons, List.sum_cons]
    rfl
  have hrates : ctx.minRateSum = (ctx.txcs k).minRate + (unhash k ctx).minRateSum := by
    rw [minRateSum, (hperm.map _).sum_eq, List.map_cons, List.sum_cons]
    rfl
  constructor
  · show s32 _ = ((unhash k ctx).weightSum : ℤ)
    rw [h.total, s32_of_fits (by omega) (by omega)]
    omega
  · intro k' hk'
    exact h.weight_le k' (hperm.mem_iff.2 (List.mem_cons_of_mem _ hk'))
  · intro _
    show (unhash k ctx).minRateSum ≤ _
    have := h.fits
    omega

/-- Another weight for a class. -/
theorem Shares.balanced_setWeight (h : ctx.Shares p) (hidx : ctx.Indexed plat)
    (hroom : ctx.weightSum + 1024 < 2 ^ 31) {k : ℕ} (hk : k ∈ ctx.hashed) {weight : ℤ}
    (hnonneg : 0 ≤ weight) (hle : weight ≤ 1024) :
    ({ ctx.modifyTxc k (TxClass.setWeight weight.toNat) with
      txcTotalWeight := s32 (s32 (ctx.txcTotalWeight - (ctx.txcs k).weight) + weight) } :
        TxContext C).Balanced p := by
  have hchained : ctx.Hashes plat := hidx.chained
  have hsum := weightSum_modifyTxc hchained hk (TxClass.setWeight weight.toNat)
  have hpart : (ctx.txcs k).weight ≤ ctx.weightSum :=
    List.single_le_sum (fun _ _ => Nat.zero_le _) _ (List.mem_map_of_mem hk)
  have hrates : (ctx.modifyTxc k (TxClass.setWeight weight.toNat)).minRateSum = ctx.minRateSum := by
    have hrate := field_update TxClass.minRate ctx.txcs (a := k)
      (x := TxClass.setWeight weight.toNat (ctx.txcs k)) rfl
    simp only [minRateSum, modifyTxc, hashed, hrate]
  constructor
  · show s32 _ = ((ctx.modifyTxc k (TxClass.setWeight weight.toNat)).weightSum : ℤ)
    rw [h.total, s32_of_fits (z := ctx.weightSum - _) (by omega) (by omega),
      s32_of_fits (by omega) (by omega)]
    show _ = (_ : ℤ)
    have hnew : (TxClass.setWeight weight.toNat (ctx.txcs k)).weight = weight.toNat := rfl
    omega
  · intro k' hk'
    show ((ctx.modifyTxc k (TxClass.setWeight weight.toNat)).txcs k').weight ≤ 1024
    simp only [modifyTxc, Function.update_apply]
    split_ifs
    · show weight.toNat ≤ 1024
      omega
    · exact h.weight_le k' hk'
  · intro _
    show (ctx.modifyTxc k (TxClass.setWeight weight.toNat)).minRateSum ≤ _
    rw [hrates]
    exact h.fits

/-- A change that touches neither weights nor rates. -/
theorem Shares.congr (h : ctx.Shares p) (hbucket : ctx'.isoTxBucket = ctx.isoTxBucket)
    (htotal : ctx'.txcTotalWeight = ctx.txcTotalWeight)
    (hweight : ∀ k, (ctx'.txcs k).weight = (ctx.txcs k).weight)
    (hrate : ∀ k, (ctx'.txcs k).minRate = (ctx.txcs k).minRate) : ctx'.Shares p := by
  have hhashed : ctx'.hashed = ctx.hashed := by rw [hashed, hbucket, hashed]
  have hsum : ctx'.weightSum = ctx.weightSum := by simp only [weightSum, hhashed, hweight]
  have hrates : ctx'.minRateSum = ctx.minRateSum := by simp only [minRateSum, hhashed, hrate]
  refine ⟨⟨?_, ?_, ?_⟩, ?_⟩
  · rw [htotal, hsum, h.total]
  · rw [hrates]
    exact h.fits
  · simp only [htotal, hhashed, hrate, hweight]
    exact h.share
  · simp only [hhashed, hweight]
    exact h.weight_le

theorem Shares.balanced (h : ctx.Shares p) : ctx.Balanced p :=
    ⟨h.total, h.weight_le, fun _ => h.fits⟩

theorem Shares.modifyTxc (h : ctx.Shares p) (k : ℕ) {f : TxClass C → TxClass C}
    (hweight : (f (ctx.txcs k)).weight = (ctx.txcs k).weight)
    (hrate : (f (ctx.txcs k)).minRate = (ctx.txcs k).minRate) : (ctx.modifyTxc k f).Shares p :=
  h.congr rfl rfl (field_update TxClass.weight ctx.txcs hweight)
    (field_update TxClass.minRate ctx.txcs hrate)

/-- Every command keeps the guarantees, where there is room for one more weight. -/
theorem Shares.step (h : ctx.Shares p) (hidx : ctx.Indexed plat)
    (hC : 1024 * p.isoMaxTxRate < 2 ^ 31) (hroom : ctx.weightSum + 1024 < 2 ^ 31) (op : Op) :
    (step plat p ctx op).Shares p := by
  have hchained : ctx.Hashes plat := hidx.chained
  cases op with
  | createTxc now kmalloc rounds klass =>
    show (isoTxcMarkInstall plat p now kmalloc rounds klass ctx).2.Shares p
    unfold isoTxcMarkInstall
    split
    · exact h
    · cases kmalloc with
      | false => exact h
      | true =>
        have hweight : (TxClass.isoTxcPrealloc p now rounds
            (.init p now klass : TxClass C)).weight = 1 :=
          TxClass.isoTxcPrealloc_field TxClass.weight (fun _ => rfl) rounds _
        have hklass : (TxClass.isoTxcPrealloc p now rounds (.init p now klass : TxClass C)).klass =
            klass :=
          TxClass.isoTxcPrealloc_field TxClass.klass (fun _ => rfl) rounds _
        have hlink := hidx.link hklass
        exact (h.balanced_link hidx hroom klass hweight).recompute hC hlink.list_nodup
          fun k hk => hlink.mem_list hk
  | deleteTxc klass =>
    show (isoSysDeleteTxc plat p klass ctx).2.Shares p
    unfold isoSysDeleteTxc
    split
    · exact h
    · rename_i k hfind
      have hk := hchained.mem_hashed_of_find hfind
      have hunhash := hidx.unhash (hidx.lt_of_isoTxcFind hfind)
      have hrates := (h.balanced_unhash hidx hroom hk).recompute hC hidx.list_nodup
        fun k hk => hunhash.mem_list hk
      exact ⟨⟨hrates.total, hrates.fits, hrates.share⟩, hrates.weight_le⟩
  | setTxcWeight klass weight =>
    show (isoSysSetTxcWeight plat p klass weight ctx).2.Shares p
    unfold isoSysSetTxcWeight
    split
    · exact h
    · rename_i k hfind
      have hk := hchained.mem_hashed_of_find hfind
      split_ifs with hrange
      · exact h
      · exact (h.balanced_setWeight hidx hroom hk (by omega) (by omega)).recompute
          hC hidx.list_nodup
          fun k hk => hidx.mem_list hk
  | setTxcRate klass rate =>
    show (isoSysSetTxcRate plat p klass rate ctx).2.Shares p
    unfold isoSysSetTxcRate
    split
    · exact h
    · split_ifs
      · exact h
      · rename_i k _ _
        have hcap : (ctx.modifyTxc k (TxClass.setCap p rate)).Shares p := by
          apply h.modifyTxc
          · exact TxClass.setCap_field TxClass.weight (fun _ _ _ => rfl) rate _
          · exact TxClass.setCap_field TxClass.minRate (fun _ _ _ => rfl) rate _
        exact hcap.balanced.recompute hC hidx.list_nodup fun k hk => hidx.mem_list hk
  | assocTxcVq klass vq =>
    show (assoc plat klass vq ctx).Shares p
    unfold assoc
    split
    · exact h.modifyTxc _ rfl rfl
    · exact h
  | recomputeDev =>
    exact h.balanced.recompute hC hidx.list_nodup fun k hk => hidx.mem_list hk

theorem init_shares (p : Params) : (init p : TxContext C).Shares p := by
  have hhashed : (init p : TxContext C).hashed = [] := List.flatMap_eq_nil_iff.2 fun _ _ => rfl
  refine ⟨⟨?_, ?_, ?_⟩, ?_⟩
  · rw [weightSum, hhashed]
    rfl
  · rw [minRateSum, hhashed]
    exact Nat.zero_le _
  · intro hpos
    exact absurd hpos (lt_irrefl (0 : ℤ))
  · rw [hhashed]
    exact fun _ hk => absurd hk List.not_mem_nil

end TxContext

end EyeQ
