import EyeQ.Dev.Equiv.Effect

/-!
# The shares of a device's VQs

`iso_vq_calculate_rates` divides the drain rate among the VQs on the list, by weight; those with a
cap keep it.  `Proportional` says that the rates are these shares.  `create_vq` and `set_vq_weight`
and a cap that is cleared compute the rates anew, and a cap that is set needs no new rates, since a
VQ with a cap still counts with its weight.  `delete_vq` takes a weight away and computes nothing:
the VQs that are left keep the shares they had beside the deleted one (`runFrom_not_proportional`).

`Noted` is a device together with what its operator has noted, the cap last set for each VQ.
-/

namespace EyeQ

open Machine

variable {C : Type} {plat : Platform} {p : Params}

/-! ### Shares -/

namespace RxContext

variable {ctx ctx' : RxContext C}

/-- The sum of the weights of the VQs on the list. -/
def weightSum (ctx : RxContext C) : ℕ := (ctx.vqList.map fun v => (ctx.vqs v).weight).sum

/-- The VQs on the list that have no cap. -/
def uncapped (ctx : RxContext C) : List ℕ := ctx.vqList.filter fun v => !(ctx.vqs v).isStatic

/-- If there is any weight, every VQ without a cap has its share of the drain rate, rounded down; so
these rates add up to no more than the drain rate. -/
structure Proportional (p : Params) (ctx : RxContext C) : Prop where
  share : 0 < ctx.weightSum → ∀ v ∈ ctx.vqList, (ctx.vqs v).isStatic = false →
    (ctx.vqs v).rate = p.isoVqDrainRateMbps * (ctx.vqs v).weight / ctx.weightSum
  fits : 0 < ctx.weightSum → (ctx.uncapped.map fun v => (ctx.vqs v).rate).sum ≤ p.isoVqDrainRateMbps

theorem mem_uncapped {v : ℕ} : v ∈ ctx.uncapped ↔
    v ∈ ctx.vqList ∧ (ctx.vqs v).isStatic = false := by
  rw [uncapped, List.mem_filter, Bool.not_eq_true']

theorem weight_le_weightSum {v : ℕ} (hv : v ∈ ctx.vqList) : (ctx.vqs v).weight ≤ ctx.weightSum :=
  List.single_le_sum (fun _ _ => Nat.zero_le _) _ (List.mem_map_of_mem hv)

/-- Shares that are rounded down add up. -/
theorem Proportional.of_share
    (h : 0 < ctx.weightSum → ∀ v ∈ ctx.vqList, (ctx.vqs v).isStatic = false →
      (ctx.vqs v).rate = p.isoVqDrainRateMbps * (ctx.vqs v).weight / ctx.weightSum) :
      ctx.Proportional p := by
  refine ⟨h, fun hpos => ?_⟩
  have hsub : (ctx.uncapped.map fun v => (ctx.vqs v).weight).sum ≤ ctx.weightSum :=
    (List.Sublist.map _ List.filter_sublist).sum_le_sum fun _ _ => Nat.zero_le _
  calc (ctx.uncapped.map fun v => (ctx.vqs v).rate).sum
      = (ctx.uncapped.map fun v => p.isoVqDrainRateMbps * (ctx.vqs v).weight /
        ctx.weightSum).sum := by
        refine congrArg List.sum (List.map_congr_left fun v hv => ?_)
        obtain ⟨hmem, hstatic⟩ := mem_uncapped.mp hv
        exact h hpos v hmem hstatic
    _ ≤ (ctx.uncapped.map fun v => p.isoVqDrainRateMbps * (ctx.vqs v).weight).sum / ctx.weightSum :=
        sum_map_div_le ..
    _ = p.isoVqDrainRateMbps * (ctx.uncapped.map fun v => (ctx.vqs v).weight).sum /
    ctx.weightSum := by
        rw [List.sum_map_mul_left]
    _ ≤ p.isoVqDrainRateMbps * ctx.weightSum / ctx.weightSum :=
        Nat.div_le_div_right (Nat.mul_le_mul_left _ hsub)
    _ = p.isoVqDrainRateMbps := Nat.mul_div_cancel _ hpos

/-! ### Computing the rates -/

theorem foldl_weight (f : ℕ → ℕ) (l : List ℕ) (total : ℕ) (h : total + (l.map f).sum < 2 ^ 32) :
    l.foldl (fun total v => u32 (total + f v)) total = total + (l.map f).sum := by
  induction l generalizing total with
  | nil => rfl
  | cons v l ih =>
    rw [List.map_cons, List.sum_cons] at h ⊢
    rw [List.foldl_cons, u32_of_lt (by omega), ih _ (by omega), Nat.add_assoc]

/-- `total_weight` does not wrap. -/
theorem vqTotalWeight_eq (h : ctx.weightSum < 2 ^ 32) : ctx.vqTotalWeight = ctx.weightSum := by
  have hfold := foldl_weight (fun v => (ctx.vqs v).weight) ctx.vqList 0
    (by rw [Nat.zero_add]; exact h)
  rw [Nat.zero_add] at hfold
  exact hfold

theorem isoVqCalculateRates_vqList (h : isoVqCalculateRates p ctx = .ok ctx') :
    ctx'.vqList = ctx.vqList := by
  obtain ⟨ctx'', heq, hlist, -⟩ := isoVqCalculateRates_eq p ctx
  obtain rfl := Except.ok.inj (heq.symm.trans h)
  exact hlist

theorem isoVqCalculateRates_weightSum (h : isoVqCalculateRates p ctx = .ok ctx') :
    ctx'.weightSum = ctx.weightSum := by
  rw [weightSum, isoVqCalculateRates_vqList h]
  refine congrArg List.sum (List.map_congr_left fun v _ => ?_)
  exact (isoVqCalculateRates_keeps h v).1

/-- A cap is kept. -/
theorem isoVqCalculateRates_rate (h : isoVqCalculateRates p ctx = .ok ctx') {v : ℕ}
    (hstatic : (ctx.vqs v).isStatic = true) : (ctx'.vqs v).rate = (ctx.vqs v).rate := by
  obtain ⟨ctx'', heq, -, hvqs⟩ := isoVqCalculateRates_eq p ctx
  obtain rfl := Except.ok.inj (heq.symm.trans h)
  rw [hvqs, calculated, if_pos hstatic, ite_self]

theorem isoVqCalculateRates_proportional (hdrain : p.isoVqDrainRateMbps < 2 ^ 31)
    (hroom : ctx.weightSum < 2 ^ 32) (h : isoVqCalculateRates p ctx = .ok ctx') :
    ctx'.Proportional p := by
  apply Proportional.of_share
  rw [isoVqCalculateRates_weightSum h, isoVqCalculateRates_vqList h]
  intro hpos v hv hstatic
  have hweight : (ctx.vqs v).weight < 2 ^ 32 := (weight_le_weightSum hv).trans_lt hroom
  have hfits : p.isoVqDrainRateMbps * (ctx.vqs v).weight < 2 ^ 31 * 2 ^ 32 :=
    Nat.mul_lt_mul'' hdrain hweight
  rw [(isoVqCalculateRates_keeps h v).2] at hstatic
  rw [(isoVqCalculateRates_keeps h v).1]
  obtain ⟨ctx'', heq, -, hvqs⟩ := isoVqCalculateRates_eq p ctx
  obtain rfl := Except.ok.inj (heq.symm.trans h)
  have htotal := vqTotalWeight_eq hroom
  rw [hvqs, if_pos ⟨by omega, hv⟩, calculated, if_neg (by simp [hstatic]), htotal,
    u64_of_lt (by omega)]

/-! ### What is not written -/

/-- The two contexts have the same VQs with the same configuration. -/
structure SameConfig (ctx ctx' : RxContext C) : Prop where
  vqList : ctx'.vqList = ctx.vqList
  weight : ∀ v, (ctx'.vqs v).weight = (ctx.vqs v).weight
  isStatic : ∀ v, (ctx'.vqs v).isStatic = (ctx.vqs v).isStatic
  rate : ∀ v, (ctx'.vqs v).rate = (ctx.vqs v).rate

theorem SameConfig.refl (ctx : RxContext C) : SameConfig ctx ctx :=
    ⟨rfl, fun _ => rfl, fun _ => rfl, fun _ => rfl⟩

/-- A reference count is no configuration. -/
theorem SameConfig.setRefcnt (h : SameConfig ctx ctx') (v : ℕ) (f : Vq C → ℤ) :
    SameConfig ctx (ctx'.modifyVq v fun vq => { vq with refcnt := f vq }) := by
  have hfield : ∀ {β : Type} (field : Vq C → β)
      (_ : ∀ vq n, field { vq with refcnt := n } = field vq) (v' : ℕ),
      field ((ctx'.modifyVq v fun vq => { vq with refcnt := f vq }).vqs v') = field (ctx'.vqs v') :=
    fun field hf v' => field_update field ctx'.vqs (hf _ _) v'
  constructor
  · exact h.vqList
  · exact fun v' => (hfield Vq.weight (fun _ _ => rfl) v').trans (h.weight v')
  · exact fun v' => (hfield Vq.isStatic (fun _ _ => rfl) v').trans (h.isStatic v')
  · exact fun v' => (hfield Vq.rate (fun _ _ => rfl) v').trans (h.rate v')

theorem SameConfig.weightSum_eq (h : SameConfig ctx ctx') : ctx'.weightSum = ctx.weightSum := by
  rw [weightSum, h.vqList]
  exact congrArg List.sum (List.map_congr_left fun v _ => h.weight v)

theorem Proportional.congr (h : ctx.Proportional p) (same : SameConfig ctx ctx') :
    ctx'.Proportional p := by
  apply Proportional.of_share
  rw [same.weightSum_eq, same.vqList]
  intro hpos v hv hstatic
  rw [same.isStatic] at hstatic
  rw [same.rate, same.weight]
  exact h.share hpos v hv hstatic

theorem assoc_sameConfig (ctx : RxContext C) (old : Option ℕ) (klass : UInt32) :
    SameConfig ctx (ctx.assoc plat old klass) := by
  unfold assoc
  split
  · exact SameConfig.refl ctx
  · apply SameConfig.setRefcnt
    cases old with
    | none => exact SameConfig.refl ctx
    | some o => exact (SameConfig.refl ctx).setRefcnt o _

/-! ### The sum of the weights -/

theorem weightSum_modifyVq_of_weight {v : ℕ} {f : Vq C → Vq C}
    (hf : (f (ctx.vqs v)).weight = (ctx.vqs v).weight) :
    (ctx.modifyVq v f).weightSum = ctx.weightSum :=
  congrArg List.sum (List.map_congr_left fun v' _ => field_update Vq.weight ctx.vqs hf v')

/-- A weight that is written moves the sum by no more than itself. -/
theorem weightSum_modifyVq_le (hlist : ctx.vqList.Nodup) (v : ℕ) (f : Vq C → Vq C) :
    (ctx.modifyVq v f).weightSum ≤ ctx.weightSum + (f (ctx.vqs v)).weight := by
  have hne : ∀ x, x ≠ v → ((ctx.modifyVq v f).vqs x).weight = (ctx.vqs x).weight := by
    intro x hx
    exact congrArg Vq.weight (Function.update_of_ne hx ..)
  have hself : ((ctx.modifyVq v f).vqs v).weight = (f (ctx.vqs v)).weight :=
    congrArg Vq.weight (Function.update_self ..)
  show (ctx.vqList.map fun x => ((ctx.modifyVq v f).vqs x).weight).sum ≤ _
  by_cases hv : v ∈ ctx.vqList
  · have hwrite := sum_map_write hlist hv hne
    rw [hself] at hwrite
    unfold weightSum
    omega
  · have hsame : (ctx.vqList.map fun x => ((ctx.modifyVq v f).vqs x).weight) =
        ctx.vqList.map fun x => (ctx.vqs x).weight :=
      List.map_congr_left fun x hx => hne x fun hxv => hv (hxv ▸ hx)
    rw [hsame]
    exact Nat.le_add_right ..

theorem weightSum_erase {v : ℕ} (hv : v ∈ ctx.vqList) :
    ({ ctx with vqList := ctx.vqList.erase v } : RxContext C).weightSum + (ctx.vqs v).weight =
    ctx.weightSum := by
  have hperm := (List.perm_cons_erase hv).map fun v => (ctx.vqs v).weight
  rw [weightSum, weightSum, hperm.sum_eq, List.map_cons, List.sum_cons, Nat.add_comm]

end RxContext

namespace Dev

open RxContext (SameConfig isoVqCalculateRates)

variable {d d' : Dev C}

theorem weightSum_linkVq {v : ℕ} (hv : v ∉ d.rx.vqList) (vq : Vq C) :
    (linkVq plat v vq d.rx).weightSum = d.rx.weightSum + vq.weight := by
  have hold : ∀ x ∈ d.rx.vqList, (Function.update d.rx.vqs v vq x).weight =
      (d.rx.vqs x).weight := by
    intro x hx
    have hne : x ≠ v := fun hxv => hv (hxv ▸ hx)
    rw [Function.update_of_ne hne]
  show ((d.rx.vqList ++ [v]).map fun x => (Function.update d.rx.vqs v vq x).weight).sum = _
  rw [List.map_append, List.sum_append, List.map_congr_left hold, List.map_singleton,
    List.sum_singleton, Function.update_self]
  rfl

/-! ### What is noted -/

/-- A device, and the cap that was last set for each VQ. -/
structure Noted (C : Type) where
  dev : Dev C
  cap : ℕ → Option ℤ

namespace Noted

def init (p : Params) (statsNow rcpNow : ℕ) : Noted C := ⟨Dev.init p statsNow rcpNow, fun _ => none⟩

/-- What is noted of a command that has returned `0`. -/
def note (plat : Platform) (d : Dev C) (cap : ℕ → Option ℤ) : Op → ℕ → Option ℤ
  | .createVq _ kmalloc _ _ _ =>
    match kmalloc.addr d.rx.brk d.vqFreed with
    | none => cap
    | some v => Function.update cap v none
  | .setVqRate klass rate =>
    match d.rx.isoVqFind plat klass with
    | none => cap
    | some v => Function.update cap v (if rate = 0 then none else some rate)
  | _ => cap

theorem note_createVq {d : Dev C} {now v : ℕ} {kmalloc : Alloc} {percpu : Bool}
    {stale : ℤ} {klass : UInt32} (hv : kmalloc.addr d.rx.brk d.vqFreed = some v)
    (cap : ℕ → Option ℤ) :
    note plat d cap (.createVq now kmalloc percpu stale klass) = Function.update cap v none := by
  rw [note, hv]

theorem note_setVqRate {d : Dev C} {klass : UInt32} {v : ℕ}
    (hfind : d.rx.isoVqFind plat klass = some v) (rate : ℤ) (cap : ℕ → Option ℤ) :
    note plat d cap (.setVqRate klass rate) =
    Function.update cap v (if rate = 0 then none else some rate) := by
  rw [note, hfind]

/-- One command. -/
def step (plat : Platform) (p : Params) (s : Noted C) (op : Op) : Except Halt (Noted C) := do
  let (ret, d) ← s.dev.exec plat p op
  pure ⟨d, if ret = 0 then note plat s.dev s.cap op else s.cap⟩

end Noted

/-! ### What a command does -/

/-- All that a command that returns `ret` can do to the configuration of the VQs. -/
inductive Reshared (plat : Platform) (p : Params) (d : Dev C) : Op → ℤ → Dev C → Prop
  | same {op : Op} {ret : ℤ} {d' : Dev C} (hnote : ret = 0 → ∀ cap, Noted.note plat d cap op = cap)
      (hrx : SameConfig d.rx d'.rx) : Reshared plat p d op ret d'
  | created {now v : ℕ} {kmalloc : Alloc} {percpu : Bool} {stale : ℤ} {klass : UInt32}
      {vq : Vq C} {d' : Dev C}
      (hv : kmalloc.addr d.rx.brk d.vqFreed = some v) (hweight : vq.weight = 1)
      (hstatic : vq.isStatic = false)
      (hrx : isoVqCalculateRates p (linkVq plat v vq d.rx) = .ok d'.rx) :
      Reshared plat p d (.createVq now kmalloc percpu stale klass) 0 d'
  | weighed {klass : UInt32} {weight : ℤ} {v : ℕ} {d' : Dev C} (hrange : 0 ≤ weight ∧ weight ≤ 1024)
      (hrx : isoVqCalculateRates p
        (d.rx.modifyVq v fun vq => { vq with weight := u64OfInt weight }) = .ok d'.rx) :
      Reshared plat p d (.setVqWeight klass weight) 0 d'
  | capped {klass : UInt32} {rate : ℤ} {v : ℕ} {d' : Dev C}
      (hfind : d.rx.isoVqFind plat klass = some v)
      (hrange : 0 < rate ∧ rate ≤ p.isoVqDrainRateMbps)
      (hrx : d'.rx = d.rx.modifyVq v fun vq =>
        { vq with rate := u64OfInt rate, isStatic := true }) :
      Reshared plat p d (.setVqRate klass rate) 0 d'
  | cleared {klass : UInt32} {v : ℕ} {d' : Dev C} (hfind : d.rx.isoVqFind plat klass = some v)
      (hrx : isoVqCalculateRates p (d.rx.modifyVq v fun vq => { vq with isStatic := false }) =
        .ok d'.rx) :
      Reshared plat p d (.setVqRate klass 0) 0 d'
  | deleted {klass : UInt32} {v : ℕ} {d' : Dev C} (hfind : d.rx.isoVqFind plat klass = some v)
      (hrefcnt : (d.rx.vqs v).refcnt ≤ 0) (hmem : v ∈ d.rx.vqList)
      (hrx : d'.rx = { d.rx with vqList := d.rx.vqList.erase v }) :
      Reshared plat p d (.deleteVq klass) 0 d'
  | recomputed {d' : Dev C} (hrx : isoVqCalculateRates p d.rx = .ok d'.rx) :
      Reshared plat p d .recomputeDev 0 d'

/-- A command that leaves the configuration alone, and is not noted. -/
theorem Reshared.keep {op : Op} (hnote : ∀ cap, Noted.note plat d cap op = cap) (ret : ℤ)
    (hrx : SameConfig d.rx d'.rx) : Reshared plat p d op ret d' :=
  .same (fun _ => hnote) hrx

/-- A command that is refused. -/
theorem Reshared.refused {op : Op} {ret : ℤ} (hret : ret ≠ 0) : Reshared plat p d op ret d :=
  .same (fun hzero => absurd hzero hret) (SameConfig.refl _)

theorem release_sameConfig (vq : Option ℕ) (d : Dev C) : SameConfig d.rx (d.release vq).rx := by
  cases vq with
  | none => exact SameConfig.refl d.rx
  | some v => exact (SameConfig.refl d.rx).setRefcnt v fun vq => vq.refcnt - 1

theorem isoVqInstall_reshared {now : ℕ} {kmalloc : Alloc} {percpu : Bool}
    {stale : ℤ} {klass : UInt32} {r : ℤ × Dev C}
    (h : d.isoVqInstall plat p now kmalloc percpu stale klass = .ok r) :
    Reshared plat p d (.createVq now kmalloc percpu stale klass) r.1 r.2 := by
  obtain ⟨found, -, h⟩ := bind_eq_ok h
  split at h
  · rename_i v hv
    obtain ⟨d', halloc, h⟩ := bind_eq_ok h
    obtain ⟨rx, hrx, hd⟩ := bind_eq_ok halloc
    rw [← Except.ok.inj h, ← Except.ok.inj hd]
    exact .created hv rfl rfl (lift_eq_ok hrx)
  · rw [← Except.ok.inj h]
    exact .refused (show (-1 : ℤ) ≠ 0 by decide)

theorem setVqWeight_reshared {klass : UInt32} {weight : ℤ} {r : ℤ × Dev C}
    (h : d.exec plat p (.setVqWeight klass weight) = .ok r) :
    Reshared plat p d (.setVqWeight klass weight) r.1 r.2 := by
  obtain ⟨ret, d'⟩ := r
  obtain ⟨rx, hf, rfl⟩ := onVq_eq_ok h
  unfold RxContext.isoSysSetVqWeight at hf
  split at hf
  · obtain ⟨rfl, rfl⟩ := Prod.mk.inj (Except.ok.inj hf)
    exact .refused (show -einval ≠ 0 by decide)
  · split_ifs at hf with hrange
    · obtain ⟨rfl, rfl⟩ := Prod.mk.inj (Except.ok.inj hf)
      exact .refused (show -einval ≠ 0 by decide)
    · obtain ⟨ctx, hrates, hf⟩ := bind_eq_ok hf
      obtain ⟨rfl, rfl⟩ := Prod.mk.inj (Except.ok.inj hf)
      exact .weighed (by omega) hrates

theorem setVqRate_reshared {klass : UInt32} {rate : ℤ} {r : ℤ × Dev C}
    (h : d.exec plat p (.setVqRate klass rate) = .ok r) :
    Reshared plat p d (.setVqRate klass rate) r.1 r.2 := by
  obtain ⟨ret, d'⟩ := r
  obtain ⟨rx, hf, rfl⟩ := onVq_eq_ok h
  unfold RxContext.isoSysSetVqRate at hf
  split at hf
  · obtain ⟨rfl, rfl⟩ := Prod.mk.inj (Except.ok.inj hf)
    exact .refused (show -einval ≠ 0 by decide)
  · rename_i v hfind
    split_ifs at hf with hrange hpos
    · obtain ⟨rfl, rfl⟩ := Prod.mk.inj (Except.ok.inj hf)
      exact .refused (show -einval ≠ 0 by decide)
    · obtain ⟨rfl, rfl⟩ := Prod.mk.inj (Except.ok.inj hf)
      exact .capped hfind (by omega) rfl
    · obtain ⟨ctx, hrates, hf⟩ := bind_eq_ok hf
      obtain ⟨rfl, rfl⟩ := Prod.mk.inj (Except.ok.inj hf)
      obtain rfl : rate = 0 := by omega
      exact .cleared hfind hrates

theorem deleteVq_reshared {klass : UInt32} {r : ℤ × Dev C}
    (h : d.exec plat p (.deleteVq klass) = .ok r) :
    Reshared plat p d (.deleteVq klass) r.1 r.2 := by
  obtain ⟨found, hfound, h⟩ := bind_eq_ok (x := d.isoVqFind plat klass) h
  obtain rfl := (isoVqFind_ends plat d klass).of_eq_ok hfound
  cases hfind : d.rx.isoVqFind plat klass with
  | none =>
    rw [hfind] at h
    rw [← Except.ok.inj h]
    exact .refused (show -einval ≠ 0 by decide)
  | some v =>
    rw [hfind] at h
    dsimp only at h
    split_ifs at h with hbusy
    · rw [← Except.ok.inj h]
      exact .refused (show -einval ≠ 0 by decide)
    · obtain ⟨d', hfree, h⟩ := bind_eq_ok h
      rw [isoVqFree, if_neg hbusy] at hfree
      split_ifs at hfree with hmem
      rw [← Except.ok.inj h, ← Except.ok.inj hfree]
      exact .deleted hfind (by omega) hmem rfl

theorem createTxc_reshared {now : ℕ} {kmalloc : Alloc} {rounds : List Bool}
    {klass : UInt32} {r : ℤ × Dev C}
    (h : d.isoTxcMarkInstall plat p now kmalloc rounds klass = .ok r) :
    Reshared plat p d (.createTxc now kmalloc rounds klass) r.1 r.2 := by
  unfold isoTxcMarkInstall at h
  split at h
  · rw [walked_eq_ok h]
    exact .keep (fun _ => rfl) _ (SameConfig.refl _)
  · rw [← Except.ok.inj h]
    exact .refused (show (-1 : ℤ) ≠ 0 by decide)

theorem deleteTxc_reshared {klass : UInt32} {r : ℤ × Dev C}
    (h : d.isoSysDeleteTxc plat p klass = .ok r) :
    Reshared plat p d (.deleteTxc klass) r.1 r.2 := by
  unfold isoSysDeleteTxc at h
  split at h
  · rw [← Except.ok.inj h]
    exact .refused (show -einval ≠ 0 by decide)
  · rename_i k hk
    obtain ⟨r', hwalk, h⟩ := bind_eq_ok h
    rw [walked_eq_ok hwalk] at h
    rw [← Except.ok.inj h]
    exact .keep (fun _ => rfl) _
      (release_sameConfig (d.tx.txcs k).vq { d with tx := (d.tx.isoSysDeleteTxc plat p klass).2 })

theorem assocTxcVq_reshared {txclass vqclass : UInt32} {r : ℤ × Dev C}
    (h : d.isoSysAssocTxcVq plat txclass vqclass = .ok r) :
    Reshared plat p d (.assocTxcVq txclass vqclass) r.1 r.2 := by
  unfold isoSysAssocTxcVq Host.isoSysAssocTxcVq at h
  cases hk : d.tx.isoTxcFind plat txclass with
  | none =>
    rw [hk] at h
    rw [← Except.ok.inj h]
    exact .refused (show -einval ≠ 0 by decide)
  | some k =>
    rw [hk] at h
    obtain ⟨_, -, h⟩ := bind_eq_ok h
    rw [← Except.ok.inj h]
    cases hv : d.rx.isoVqFind plat vqclass with
    | none => exact .refused (show -einval ≠ 0 by decide)
    | some v => exact .keep (fun _ => rfl) _ (RxContext.assoc_sameConfig ..)

theorem exec_reshared {op : Op} {r : ℤ × Dev C} (h : d.exec plat p op = .ok r) :
    Reshared plat p d op r.1 r.2 := by
  cases op with
  | createTxc now kmalloc rounds klass => exact createTxc_reshared h
  | createVq now kmalloc percpu stale klass => exact isoVqInstall_reshared h
  | assocTxcVq txclass vqclass => exact assocTxcVq_reshared h
  | setTxcWeight klass weight =>
    rw [walked_eq_ok (d := d) h]
    exact .keep (fun _ => rfl) _ (SameConfig.refl _)
  | setTxcRate klass rate =>
    rw [walked_eq_ok (d := d) h]
    exact .keep (fun _ => rfl) _ (SameConfig.refl _)
  | setVqWeight klass weight => exact setVqWeight_reshared h
  | setVqRate klass rate => exact setVqRate_reshared h
  | deleteTxc klass => exact deleteTxc_reshared h
  | deleteVq klass => exact deleteVq_reshared h
  | recomputeDev =>
    obtain ⟨r', hwalk, h⟩ := bind_eq_ok (x := d.walked 0 (d.tx.isoTxcRecomputeRates p)) h
    rw [walked_eq_ok hwalk] at h
    obtain ⟨rx, hrates, h⟩ := bind_eq_ok h
    rw [← Except.ok.inj h]
    exact .recomputed (lift_eq_ok hrates)

/-! ### Runs -/

/-- The rates are the shares, every cap is the one that was last set, and `total_weight` has not
wrapped. -/
structure Steady (p : Params) (s : Noted C) : Prop where
  listed : s.dev.Listed
  room : s.dev.rx.weightSum < 2 ^ 32
  proportional : s.dev.rx.Proportional p
  cap : ∀ v ∈ s.dev.rx.vqList, (s.dev.rx.vqs v).isStatic = true →
    s.cap v = some ((s.dev.rx.vqs v).rate : ℤ)

/-- A VQ that is deleted has no weight, or leaves no VQ behind that has a share. -/
def Op.KeepsShares (plat : Platform) (d : Dev C) : Op → Prop
  | .deleteVq klass => ∀ v, d.rx.isoVqFind plat klass = some v → (d.rx.vqs v).refcnt ≤ 0 →
    (d.rx.vqs v).weight = 0 ∨
      ∀ u ∈ d.rx.vqList, u ≠ v → (d.rx.vqs u).isStatic = true ∨ (d.rx.vqs u).weight = 0
  | _ => True

/-- The rates have been computed for `ctx`. -/
theorem Steady.of_calculated (hdrain : p.isoVqDrainRateMbps < 2 ^ 31) {ctx : RxContext C}
    {cap : ℕ → Option ℤ} (hlisted : d'.Listed) (hroom : ctx.weightSum < 2 ^ 32)
    (hrx : isoVqCalculateRates p ctx = .ok d'.rx)
    (hcap : ∀ v ∈ ctx.vqList, (ctx.vqs v).isStatic = true → cap v = some ((ctx.vqs v).rate : ℤ)) :
    Steady p ⟨d', cap⟩ where
  listed := hlisted
  room := (RxContext.isoVqCalculateRates_weightSum hrx).trans_lt hroom
  proportional := RxContext.isoVqCalculateRates_proportional hdrain hroom hrx
  cap := by
    intro v hv hstatic
    dsimp only at hv hstatic
    rw [RxContext.isoVqCalculateRates_vqList hrx] at hv
    rw [(RxContext.isoVqCalculateRates_keeps hrx v).2] at hstatic
    dsimp only
    rw [RxContext.isoVqCalculateRates_rate hrx hstatic]
    exact hcap v hv hstatic

variable {s : Noted C}

theorem Steady.congr (h : Steady p s) (hlisted : d'.Listed) (same : SameConfig s.dev.rx d'.rx) :
    Steady p ⟨d', s.cap⟩ where
  listed := hlisted
  room := same.weightSum_eq.trans_lt h.room
  proportional := h.proportional.congr same
  cap := by
    intro v hv hstatic
    dsimp only at hv hstatic ⊢
    rw [same.vqList] at hv
    rw [same.isStatic] at hstatic
    rw [same.rate]
    exact h.cap v hv hstatic

theorem Steady.created (h : Steady p s) (hdrain : p.isoVqDrainRateMbps < 2 ^ 31)
    (hroom : s.dev.rx.weightSum + 1024 < 2 ^ 32) (hlisted : d'.Listed) {v : ℕ} {vq : Vq C}
    (hv : v ∉ s.dev.rx.vqList) (hweight : vq.weight = 1) (hstatic : vq.isStatic = false)
    (hrx : isoVqCalculateRates p (linkVq plat v vq s.dev.rx) = .ok d'.rx) :
    Steady p ⟨d', Function.update s.cap v none⟩ := by
  refine .of_calculated hdrain hlisted ?_ hrx ?_
  · rw [weightSum_linkVq hv]
    omega
  · intro x hx hxstatic
    by_cases hxv : x = v
    · subst hxv
      have hself : (linkVq plat x vq s.dev.rx).vqs x = vq := Function.update_self ..
      rw [hself, hstatic] at hxstatic
      exact nomatch hxstatic
    · have hold : (linkVq plat v vq s.dev.rx).vqs x = s.dev.rx.vqs x := Function.update_of_ne hxv ..
      have hmem : x ∈ s.dev.rx.vqList := by
        rcases List.mem_append.mp hx with hx | hx
        · exact hx
        · exact absurd (List.mem_singleton.mp hx) hxv
      rw [hold] at hxstatic ⊢
      rw [Function.update_of_ne hxv]
      exact h.cap x hmem hxstatic

theorem Steady.weighed (h : Steady p s) (hdrain : p.isoVqDrainRateMbps < 2 ^ 31)
    (hroom : s.dev.rx.weightSum + 1024 < 2 ^ 32) (hlisted : d'.Listed) {v : ℕ} {weight : ℤ}
    (hrange : 0 ≤ weight ∧ weight ≤ 1024)
    (hrx : isoVqCalculateRates p (s.dev.rx.modifyVq v fun vq =>
      { vq with weight := u64OfInt weight }) = .ok d'.rx) :
    Steady p ⟨d', s.cap⟩ := by
  have hle := RxContext.weightSum_modifyVq_le h.listed.nodup v fun vq =>
    { vq with weight := u64OfInt weight }
  have hweight : u64OfInt weight ≤ 1024 := by
    unfold u64OfInt
    omega
  refine .of_calculated hdrain hlisted ?_ hrx ?_
  · dsimp only at hle
    omega
  · intro x hx hstatic
    have hsame : ∀ {β : Type} (field : Vq C → β)
        (_ : ∀ vq n, field { vq with weight := n } = field vq),
        field ((s.dev.rx.modifyVq v fun vq => { vq with weight := u64OfInt weight }).vqs x) =
          field (s.dev.rx.vqs x) :=
      fun field hf => field_update field s.dev.rx.vqs (hf _ _) x
    rw [hsame Vq.isStatic fun _ _ => rfl] at hstatic
    rw [hsame Vq.rate fun _ _ => rfl]
    exact h.cap x hx hstatic

/-- A VQ with a cap counts with its weight as before, so the shares of the others are what they
were. -/
theorem Steady.capped (h : Steady p s) (hdrain : p.isoVqDrainRateMbps < 2 ^ 31)
    (hlisted : d'.Listed) {v : ℕ} {rate : ℤ} (hrange : 0 < rate ∧ rate ≤ p.isoVqDrainRateMbps)
    (hrx : d'.rx = s.dev.rx.modifyVq v fun vq =>
      { vq with rate := u64OfInt rate, isStatic := true }) :
    Steady p ⟨d', Function.update s.cap v (some rate)⟩ := by
  have hself : d'.rx.vqs v = { s.dev.rx.vqs v with rate := u64OfInt rate, isStatic := true } := by
    rw [hrx]
    exact Function.update_self ..
  have hother : ∀ x, x ≠ v → d'.rx.vqs x = s.dev.rx.vqs x := by
    intro x hx
    rw [hrx]
    exact Function.update_of_ne hx ..
  have hlist : d'.rx.vqList = s.dev.rx.vqList := by rw [hrx]; rfl
  have hsum : d'.rx.weightSum = s.dev.rx.weightSum := by
    rw [hrx]
    exact RxContext.weightSum_modifyVq_of_weight rfl
  refine ⟨hlisted, hsum.trans_lt h.room, .of_share ?_, ?_⟩
  · dsimp only
    rw [hsum, hlist]
    intro hpos x hx hstatic
    have hxv : x ≠ v := by
      rintro rfl
      rw [hself] at hstatic
      exact nomatch hstatic
    rw [hother x hxv] at hstatic ⊢
    exact h.proportional.share hpos x hx hstatic
  · intro x hx hstatic
    dsimp only at hx hstatic ⊢
    rw [hlist] at hx
    by_cases hxv : x = v
    · subst hxv
      rw [Function.update_self, hself]
      dsimp only
      unfold u64OfInt
      congr 1
      omega
    · rw [hother x hxv] at hstatic ⊢
      rw [Function.update_of_ne hxv]
      exact h.cap x hx hstatic

theorem Steady.cleared (h : Steady p s) (hdrain : p.isoVqDrainRateMbps < 2 ^ 31)
    (hlisted : d'.Listed) {v : ℕ} (hrx : isoVqCalculateRates p
      (s.dev.rx.modifyVq v fun vq => { vq with isStatic := false }) = .ok d'.rx) :
    Steady p ⟨d', Function.update s.cap v none⟩ := by
  refine .of_calculated hdrain hlisted ?_ hrx ?_
  · rw [RxContext.weightSum_modifyVq_of_weight rfl]
    exact h.room
  · intro x hx hstatic
    by_cases hxv : x = v
    · subst hxv
      have hself : (s.dev.rx.modifyVq x fun vq => { vq with isStatic := false }).vqs x =
          { s.dev.rx.vqs x with isStatic := false } := Function.update_self ..
      rw [hself] at hstatic
      exact nomatch hstatic
    · have hold : (s.dev.rx.modifyVq v fun vq => { vq with isStatic := false }).vqs x =
          s.dev.rx.vqs x :=
        Function.update_of_ne hxv ..
      rw [hold] at hstatic ⊢
      rw [Function.update_of_ne hxv]
      exact h.cap x hx hstatic

/-- Nothing is computed; what is left has no share, or the weights add up to what they did. -/
theorem Steady.deleted (h : Steady p s) (hlisted : d'.Listed) {v : ℕ} (hmem : v ∈ s.dev.rx.vqList)
    (hkeeps : (s.dev.rx.vqs v).weight = 0 ∨ ∀ u ∈ s.dev.rx.vqList, u ≠ v →
      (s.dev.rx.vqs u).isStatic = true ∨ (s.dev.rx.vqs u).weight = 0)
    (hrx : d'.rx = { s.dev.rx with vqList := s.dev.rx.vqList.erase v }) : Steady p ⟨d', s.cap⟩ := by
  have hsum := RxContext.weightSum_erase hmem
  rw [← hrx] at hsum
  have hvqs : d'.rx.vqs = s.dev.rx.vqs := by rw [hrx]
  have hlist : ∀ x ∈ d'.rx.vqList, x ∈ s.dev.rx.vqList ∧ x ≠ v := by
    intro x hx
    rw [hrx] at hx
    exact (h.listed.nodup.mem_erase_iff.mp hx).symm
  refine ⟨hlisted, show d'.rx.weightSum < _ by have := h.room; omega, .of_share ?_, ?_⟩
  · dsimp only
    intro hpos x hx hstatic
    obtain ⟨hold, hne⟩ := hlist x hx
    rw [hvqs] at hstatic ⊢
    have hshare := h.proportional.share (by omega) x hold hstatic
    rcases hkeeps with hzero | hrest
    · rw [hshare, ← hsum, hzero, Nat.add_zero]
    · rcases hrest x hold hne with hcapped | hzero
      · rw [hcapped] at hstatic
        exact nomatch hstatic
      · rw [hshare, hzero, Nat.mul_zero, Nat.zero_div, Nat.zero_div]
  · intro x hx hstatic
    dsimp only at hx hstatic ⊢
    rw [hvqs] at hstatic ⊢
    exact h.cap x (hlist x hx).1 hstatic

theorem Steady.step (h : Steady p s) (hdrain : p.isoVqDrainRateMbps < 2 ^ 31) {op : Op}
    (hop : op.KeepsShares plat s.dev) (hroom : s.dev.rx.weightSum + 1024 < 2 ^ 32) {s' : Noted C}
    (hstep : s.step plat p op = .ok s') : Steady p s' := by
  obtain ⟨⟨ret, d'⟩, hexec, hs'⟩ := bind_eq_ok hstep
  obtain rfl := Except.ok.inj hs'
  have hlisted : d'.Listed := h.listed.step (show Prod.snd <$> s.dev.exec plat p op =
    .ok d' by rw [hexec]; rfl)
  have hzero : Int.ofNat 0 = 0 := rfl
  cases exec_reshared hexec with
  | same hnote hrx =>
    have hcap : (if ret = 0 then Noted.note plat s.dev s.cap op else s.cap) = s.cap := by
      split_ifs with hzero
      · exact hnote hzero s.cap
      · rfl
    rw [hcap]
    exact h.congr hlisted hrx
  | created hv hweight hstatic hrx =>
    rw [if_pos hzero, Noted.note_createVq hv]
    exact h.created hdrain hroom hlisted (h.listed.new (Alloc.eq_brk_or_mem hv)) hweight hstatic hrx
  | weighed hrange hrx => exact h.weighed hdrain hroom hlisted hrange hrx
  | capped hfind hrange hrx =>
    rw [if_pos hzero, Noted.note_setVqRate hfind, if_neg (by omega)]
    exact h.capped hdrain hlisted hrange hrx
  | cleared hfind hrx =>
    rw [if_pos hzero, Noted.note_setVqRate hfind, if_pos rfl]
    exact h.cleared hdrain hlisted hrx
  | deleted hfind hrefcnt hmem hrx => exact h.deleted hlisted hmem (hop _ hfind hrefcnt) hrx
  | recomputed hrx => exact .of_calculated hdrain hlisted h.room hrx h.cap

theorem init_steady (p : Params) (statsNow rcpNow : ℕ) :
    Steady p (Noted.init p statsNow rcpNow : Noted C) where
  listed := init_listed p statsNow rcpNow
  room := show 0 < 2 ^ 32 by decide
  proportional := .of_share fun hpos => absurd hpos (Nat.lt_irrefl 0)
  cap := fun _ hv => absurd hv List.not_mem_nil

/-- In a run in which no VQ is deleted that takes a weight from the others, and in which there is
always room for one more weight, the rates are the shares after every command, and every cap is the
one that was last set. -/
theorem runFrom_proportional (plat : Platform) {p : Params} (hdrain : p.isoVqDrainRateMbps < 2 ^ 31)
    (statsNow rcpNow : ℕ) {ops : List Op}
    (hops : GuardedE (Noted.step plat p)
      (fun s op => op.KeepsShares plat s.dev ∧ s.dev.rx.weightSum + 1024 < 2 ^ 32)
      (Noted.init p statsNow rcpNow : Noted C) ops)
    (hrun : runE (Noted.step plat p) (Noted.init p statsNow rcpNow) ops = .ok s) :
    s.dev.rx.Proportional p ∧ ∀ v ∈ s.dev.rx.vqList, (s.dev.rx.vqs v).isStatic = true →
      s.cap v = some ((s.dev.rx.vqs v).rate : ℤ) := by
  have hends : Ends (Steady p) (fun _ => True)
      (runE (Noted.step plat p) (Noted.init p statsNow rcpNow) ops) :=
    hops.ends (fun _ _ hop h => ends_of_ok fun _ hstep => h.step hdrain hop.1 hop.2 hstep)
      (init_steady p statsNow rcpNow)
  have hsteady := hends.of_eq_ok hrun
  exact ⟨hsteady.proportional, hsteady.cap⟩

/-- Three VQs share the link, one of them with a cap. -/
theorem runFrom_proportional_threeVqs :
    ∃ s : Noted Bool, runE (Noted.step .x86 {}) (Noted.init {} 0 0)
        [.createVq 0 .fresh true 0 1, .createVq 0 .fresh true 0 2,
          .setVqWeight 1 3, .setVqRate 2 500, .createVq 0 .fresh true 0 3] = .ok s ∧
      s.cap 1 = some 500 ∧ (s.dev.rx.vqs 0).rate = 5400 ∧ s.dev.rx.Proportional {} := by
  have hrun := eq_ok_endOr (Noted.init {} 0 0)
    (x := runE (Noted.step .x86 {}) (Noted.init {} 0 0 : Noted Bool) [.createVq 0 .fresh true 0 1,
      .createVq 0 .fresh true 0 2, .setVqWeight 1 3, .setVqRate 2 500, .createVq 0 .fresh true 0 3])
        (by decide +kernel)
  refine ⟨_, hrun, by decide +kernel, by decide +kernel,
    (runFrom_proportional .x86 (by decide) 0 0 ?_ hrun).1⟩
  refine guardedE_cons (Noted.init {} 0 0) ⟨trivial, by decide +kernel⟩ ?_
  refine guardedE_cons (Noted.init {} 0 0) ⟨trivial, by decide +kernel⟩ ?_
  refine guardedE_cons (Noted.init {} 0 0) ⟨trivial, by decide +kernel⟩ ?_
  refine guardedE_cons (Noted.init {} 0 0) ⟨trivial, by decide +kernel⟩ ?_
  exact guardedE_cons (Noted.init {} 0 0) ⟨trivial, by decide +kernel⟩ trivial

/-- Of two VQs that share the link one is deleted, and the other keeps half of it. -/
theorem runFrom_not_proportional :
    ∃ s : Noted Bool, runE (Noted.step .x86 {}) (Noted.init {} 0 0)
        [.createVq 0 .fresh true 0 1, .createVq 0 .fresh true 0 2, .deleteVq 1] = .ok s ∧
      s.dev.rx.vqList = [1] ∧ (s.dev.rx.vqs 1).weight = 1 ∧ (s.dev.rx.vqs 1).rate = 4500 ∧
      ¬ s.dev.rx.Proportional {} := by
  have hrun := eq_ok_endOr (Noted.init {} 0 0)
    (x := runE (Noted.step .x86 {}) (Noted.init {} 0 0 : Noted Bool) [.createVq 0 .fresh true 0 1,
      .createVq 0 .fresh true 0 2, .deleteVq 1]) (by decide +kernel)
  refine ⟨_, hrun, by decide +kernel, by decide +kernel, by decide +kernel, fun hprop => ?_⟩
  exact absurd (hprop.share (by decide +kernel) 1 (by decide +kernel) (by decide +kernel))
    (by decide +kernel)

end Dev

end EyeQ
