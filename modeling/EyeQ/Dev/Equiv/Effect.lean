import EyeQ.Dev.Equiv.Registry
import EyeQ.Tx.Equiv.Share

/-!
# What a command has done when it returns

`exec_answers` compares the value that a command returns with what has become of the device.  A
command that returns something other than `0` has left the device as it was.  One that returns `0`
(`Accepts` says when) has done what was asked for (`Done`) exactly if the objects it was asked about
are `Intact`: a class or a VQ exists if both indexes lead to it.  Nothing that was deleted is off
both indexes: `iso_sys_delete_txc` leaves the class on `txc_list`, and `iso_vq_free` leaves the VQ
on its hash chain.
-/

namespace EyeQ

open Machine

variable {C : Type} {plat : Platform} {p : Params}

/-! ### The rates of the VQs -/

namespace RxContext

variable {ctx : RxContext C}

/-- `total_weight` in `iso_vq_calculate_rates`. -/
def vqTotalWeight (ctx : RxContext C) : ℕ :=
  ctx.vqList.foldl (fun total v => u32 (total + (ctx.vqs v).weight)) 0

/-- A VQ after its rate has been calculated. -/
def calculated (p : Params) (total : ℕ) (vq : Vq C) : Vq C :=
  if vq.isStatic then vq else { vq with rate := u64 (p.isoVqDrainRateMbps * vq.weight) / total }

theorem calculated_calculated (total : ℕ) (vq : Vq C) :
    calculated p total (calculated p total vq) = calculated p total vq := by
  unfold calculated
  split_ifs
  · rfl
  · rfl

theorem calculateRate_eq {total : ℕ} (htotal : 0 < total) (v : ℕ) :
    calculateRate p total ctx v = .ok (ctx.modifyVq v (calculated p total)) := by
  unfold calculateRate calculated
  split_ifs with hstatic
  · -- a VQ with a cap is written as it is
    have hsame : ctx.modifyVq v (fun vq => if vq.isStatic = true then vq else
        { vq with rate := u64 (p.isoVqDrainRateMbps * vq.weight) / total }) = ctx := by
      simp [modifyVq, hstatic]
    rw [hsame]
    rfl
  · rw [udiv_of_pos _ htotal]
    simp [modifyVq, hstatic]

theorem foldlM_calculateRate {total : ℕ} (htotal : 0 < total) (l : List ℕ) (ctx : RxContext C) :
    ∃ ctx', l.foldlM (calculateRate p total) ctx = .ok ctx' ∧ ctx'.vqList = ctx.vqList ∧
      ∀ v, ctx'.vqs v = if v ∈ l then calculated p total (ctx.vqs v) else ctx.vqs v := by
  induction l generalizing ctx with
  | nil => exact ⟨ctx, rfl, rfl, fun v => by simp⟩
  | cons x l ih =>
    obtain ⟨ctx', heq, hlist, hvqs⟩ := ih (ctx.modifyVq x (calculated p total))
    refine ⟨ctx', ?_, hlist, fun v => ?_⟩
    · rw [List.foldlM_cons, calculateRate_eq htotal]
      exact heq
    · rw [hvqs]
      by_cases hv : v = x
      · subst hv
        simp [modifyVq, calculated_calculated]
      · simp [hv, modifyVq]

/-- `iso_vq_calculate_rates` ends, and writes the rates of the VQs on the list. -/
theorem isoVqCalculateRates_eq (p : Params) (ctx : RxContext C) :
    ∃ ctx', isoVqCalculateRates p ctx = .ok ctx' ∧ ctx'.vqList = ctx.vqList ∧
      ∀ v, ctx'.vqs v = if 0 < ctx.vqTotalWeight ∧ v ∈ ctx.vqList then
        calculated p ctx.vqTotalWeight (ctx.vqs v) else ctx.vqs v := by
  unfold isoVqCalculateRates
  dsimp only
  by_cases htotal : 0 < ctx.vqTotalWeight
  · obtain ⟨ctx', heq, hlist, hvqs⟩ := foldlM_calculateRate (p := p) htotal ctx.vqList ctx
    refine ⟨ctx', ?_, hlist, fun v => by rw [hvqs]; simp [htotal]⟩
    exact (if_pos htotal).trans heq
  · refine ⟨ctx, if_neg htotal, rfl, fun v => by simp [htotal]⟩

/-- The weight and the cap are as they were. -/
theorem isoVqCalculateRates_keeps {ctx' : RxContext C}
    (h : isoVqCalculateRates p ctx = .ok ctx') (v : ℕ) :
    (ctx'.vqs v).weight = (ctx.vqs v).weight ∧ (ctx'.vqs v).isStatic = (ctx.vqs v).isStatic := by
  obtain ⟨ctx'', heq, -, hvqs⟩ := isoVqCalculateRates_eq p ctx
  obtain rfl := Except.ok.inj (heq.symm.trans h)
  rw [hvqs]
  unfold calculated
  split_ifs
  · exact ⟨rfl, rfl⟩
  · exact ⟨rfl, rfl⟩
  · exact ⟨rfl, rfl⟩

theorem isoVqCalculateRates_total {ctx' : RxContext C} (h : isoVqCalculateRates p ctx = .ok ctx') :
    ctx'.vqTotalWeight = ctx.vqTotalWeight := by
  obtain ⟨ctx'', heq, hlist, -⟩ := isoVqCalculateRates_eq p ctx
  obtain rfl := Except.ok.inj (heq.symm.trans h)
  unfold vqTotalWeight
  rw [hlist]
  congr 1
  funext total v
  rw [(isoVqCalculateRates_keeps h v).1]

end RxContext

namespace TxContext

variable {ctx : TxContext C}

/-- A class whose rates have been computed twice is as after the first time. -/
theorem foldl_modifyTxc_of_idem {f : TxClass C → TxClass C} (hf : ∀ txc, f (f txc) = f txc)
    (l : List ℕ) (ctx : TxContext C) (k : ℕ) :
    (l.foldl (fun ctx k => ctx.modifyTxc k f) ctx).txcs k
      = if k ∈ l then f (ctx.txcs k) else ctx.txcs k := by
  induction l generalizing ctx with
  | nil => simp
  | cons x l ih =>
    rw [List.foldl_cons, ih]
    by_cases hk : k = x
    · subst hk
      simp [modifyTxc, hf]
    · simp [hk, modifyTxc]

theorem recomputeRate_recomputed (htotal : ctx.txcTotalWeight ≠ 0) {k : ℕ} (hk : k ∈ ctx.txcList) :
    TxClass.recomputeRate p ctx.txcTotalWeight ((isoTxcRecomputeRates p ctx).txcs k)
      = (isoTxcRecomputeRates p ctx).txcs k := by
  have hidem : ∀ txc : TxClass C, TxClass.recomputeRate p ctx.txcTotalWeight
      (TxClass.recomputeRate p ctx.txcTotalWeight txc) =
      TxClass.recomputeRate p ctx.txcTotalWeight txc :=
    fun _ => rfl
  rw [isoTxcRecomputeRates, if_neg htotal, foldl_modifyTxc_of_idem hidem, if_pos hk, hidem]

end TxContext

/-! ### What is asked for -/

namespace Dev

variable {d d' : Dev C}

/-- There is the class at `k`: both indexes lead to it. -/
def HasTxc (plat : Platform) (d : Dev C) (klass : UInt32) (k : ℕ) : Prop :=
  d.tx.isoTxcFind plat klass = some k ∧ k ∈ d.tx.txcList

/-- There is the VQ at `v`: both indexes lead to it. -/
def HasVq (plat : Platform) (d : Dev C) (klass : UInt32) (v : ℕ) : Prop :=
  d.rx.isoVqFind plat klass = some v ∧ v ∈ d.rx.vqList

/-- Computing the rates anew would change none. -/
structure RatesCurrent (p : Params) (d : Dev C) : Prop where
  txc : d.tx.txcTotalWeight ≠ 0 → ∀ k ∈ d.tx.txcList,
    TxClass.recomputeRate p d.tx.txcTotalWeight (d.tx.txcs k) = d.tx.txcs k
  vq : 0 < d.rx.vqTotalWeight → ∀ v ∈ d.rx.vqList,
    RxContext.calculated p d.rx.vqTotalWeight (d.rx.vqs v) = d.rx.vqs v

/-- What the command names exists on `d`, and what it asks for is in effect on `d'`. -/
def Done (plat : Platform) (p : Params) : Op → Dev C → Dev C → Prop
  | .assocTxcVq txclass vqclass, d, d' =>
    ∃ k v, d.HasTxc plat txclass k ∧ d.HasVq plat vqclass v ∧ (d'.tx.txcs k).vq = some v
  | .setTxcWeight klass weight, d, d' =>
    ∃ k, d.HasTxc plat klass k ∧ ((d'.tx.txcs k).weight : ℤ) = weight
  | .setTxcRate klass rate, d, d' =>
    ∃ k, d.HasTxc plat klass k ∧ ((d'.tx.txcs k).isStatic ↔ rate ≠ 0) ∧
      (rate ≠ 0 → ((d'.tx.txcs k).maxRate : ℤ) = rate)
  | .setVqWeight klass weight, d, d' =>
    ∃ v, d.HasVq plat klass v ∧ ((d'.rx.vqs v).weight : ℤ) = weight
  | .setVqRate klass rate, d, d' =>
    ∃ v, d.HasVq plat klass v ∧ ((d'.rx.vqs v).isStatic ↔ rate ≠ 0) ∧
      (rate ≠ 0 → ((d'.rx.vqs v).rate : ℤ) = rate)
  | .deleteTxc klass, d, d' =>
    ∃ k, d.HasTxc plat klass k ∧ (∀ b, k ∉ d'.tx.isoTxBucket b) ∧ k ∉ d'.tx.txcList
  | .deleteVq klass, d, d' =>
    ∃ v, d.HasVq plat klass v ∧ (∀ b, v ∉ d'.rx.vqBucket b) ∧ v ∉ d'.rx.vqList
  | .recomputeDev, _, d' => RatesCurrent p d'
  | .createTxc .., _, _ => True
  | .createVq .., _, _ => True

/-- The command is taken: what it names is found in the hash tables, its number is in range, and a
VQ to delete is not in use. -/
def Accepts (plat : Platform) (p : Params) : Op → Dev C → Prop
  | .assocTxcVq txclass vqclass, d =>
    (d.tx.isoTxcFind plat txclass).isSome ∧ (d.rx.isoVqFind plat vqclass).isSome
  | .setTxcWeight klass weight, d =>
    (d.tx.isoTxcFind plat klass).isSome ∧ 0 ≤ weight ∧ weight ≤ 1024
  | .setTxcRate klass rate, d => (d.tx.isoTxcFind plat klass).isSome ∧ 0 ≤ rate ∧ rate ≤ 1024
  | .setVqWeight klass weight, d =>
    (d.rx.isoVqFind plat klass).isSome ∧ 0 ≤ weight ∧ weight ≤ 1024
  | .setVqRate klass rate, d =>
    (d.rx.isoVqFind plat klass).isSome ∧ 0 ≤ rate ∧ rate ≤ p.isoVqDrainRateMbps
  | .deleteTxc klass, d => (d.tx.isoTxcFind plat klass).isSome
  | .deleteVq klass, d => ∃ v, d.rx.isoVqFind plat klass = some v ∧ (d.rx.vqs v).refcnt ≤ 0
  | .recomputeDev, _ => True
  | .createTxc .., _ => False
  | .createVq .., _ => False

/-- What is found in the hash tables is on the lists as well.  No deletion is intact. -/
def Intact (plat : Platform) : Op → Dev C → Prop
  | .assocTxcVq txclass vqclass, d => (∃ k, d.HasTxc plat txclass k) ∧ ∃ v, d.HasVq plat vqclass v
  | .setTxcWeight klass _, d => ∃ k, d.HasTxc plat klass k
  | .setTxcRate klass _, d => ∃ k, d.HasTxc plat klass k
  | .setVqWeight klass _, d => ∃ v, d.HasVq plat klass v
  | .setVqRate klass _, d => ∃ v, d.HasVq plat klass v
  | .recomputeDev, _ => True
  | .deleteTxc _, _ => False
  | .deleteVq _, _ => False
  | .createTxc .., _ => False
  | .createVq .., _ => False

/-- The commands that create nothing, with a number that an `int` holds. -/
def Op.Answerable : Op → Prop
  | .setVqRate _ rate => rate < 2 ^ 31
  | .createTxc .. => False
  | .createVq .. => False
  | _ => True

/-- The value returned, against what has become of the device. -/
structure Answers (plat : Platform) (p : Params) (op : Op) (d : Dev C) (r : ℤ × Dev C) : Prop where
  accepts : r.1 = 0 ↔ Accepts plat p op d
  refused : r.1 ≠ 0 → r.2 = d
  done : r.1 = 0 → (Done plat p op d r.2 ↔ Intact plat op d)

theorem Answers.of_refused {op : Op} (h : ¬ Accepts plat p op d) :
    Answers plat p op d (-einval, d) where
  accepts := iff_of_false (show -einval ≠ 0 by decide) h
  refused _ := rfl
  done hzero := absurd hzero (show -einval ≠ 0 by decide)

theorem Answers.of_accepted {op : Op} (h : Accepts plat p op d)
    (hdone : Done plat p op d d' ↔ Intact plat op d) : Answers plat p op d (0, d') where
  accepts := iff_of_true rfl h
  refused hne := absurd rfl hne
  done _ := hdone

/-! ### The commands on classes -/

/-- The class that is asked for is the one that is found. -/
theorem hasTxc_and_iff {klass : UInt32} {k : ℕ} (hfind : d.tx.isoTxcFind plat klass = some k)
    {P : ℕ → Prop} (hP : P k) : (∃ k, d.HasTxc plat klass k ∧ P k) ↔
    ∃ k, d.HasTxc plat klass k := by
  constructor
  · rintro ⟨k', hk', -⟩
    exact ⟨k', hk'⟩
  · rintro ⟨k', hk'⟩
    obtain rfl : k = k' := Option.some.inj (hfind.symm.trans hk'.1)
    exact ⟨k, hk', hP⟩

theorem walked_eq_ok {ret : ℤ} {tx : TxContext C} {r : ℤ × Dev C} (h : d.walked ret tx = .ok r) :
    r = (ret, { d with tx := tx }) := by
  unfold walked at h
  split_ifs at h
  exact (Except.ok.inj h).symm

theorem setTxcWeight_answers {klass : UInt32} {weight : ℤ} {r : ℤ × Dev C}
    (h : d.exec plat p (.setTxcWeight klass weight) = .ok r) :
    Answers plat p (.setTxcWeight klass weight) d r := by
  have h : d.walked (d.tx.isoSysSetTxcWeight plat p klass weight).1
      (d.tx.isoSysSetTxcWeight plat p klass weight).2 = .ok r := h
  rw [walked_eq_ok h, TxContext.isoSysSetTxcWeight]
  cases hfind : d.tx.isoTxcFind plat klass with
  | none => exact .of_refused (by simp [Accepts, hfind])
  | some k =>
    dsimp only
    split_ifs with hrange
    · exact .of_refused (by simp only [Accepts]; omega)
    · refine .of_accepted ⟨by rw [hfind]; rfl, by omega, by omega⟩ (hasTxc_and_iff hfind ?_)
      rw [TxContext.isoTxcRecomputeRates_field TxClass.weight fun _ _ => rfl]
      simp only [TxContext.modifyTxc, Function.update_self, TxClass.setWeight]
      omega

theorem setTxcRate_answers {klass : UInt32} {rate : ℤ} {r : ℤ × Dev C}
    (h : d.exec plat p (.setTxcRate klass rate) = .ok r) :
    Answers plat p (.setTxcRate klass rate) d r := by
  have h : d.walked (d.tx.isoSysSetTxcRate plat p klass rate).1
      (d.tx.isoSysSetTxcRate plat p klass rate).2 = .ok r := h
  rw [walked_eq_ok h, TxContext.isoSysSetTxcRate]
  cases hfind : d.tx.isoTxcFind plat klass with
  | none => exact .of_refused (by simp [Accepts, hfind])
  | some k =>
    dsimp only
    split_ifs with hrange
    · exact .of_refused (by simp only [Accepts]; omega)
    · refine .of_accepted ⟨by rw [hfind]; rfl, by omega, by omega⟩ (hasTxc_and_iff hfind ?_)
      rw [TxContext.isoTxcRecomputeRates_field TxClass.isStatic fun _ _ => rfl,
        TxContext.isoTxcRecomputeRates_field TxClass.maxRate fun _ _ => rfl]
      simp only [TxContext.modifyTxc, Function.update_self, TxClass.setCap]
      split_ifs with hzero
      · simp [hzero]
      · refine ⟨by simp [hzero], fun _ => ?_⟩
        dsimp only
        omega

theorem deleteTxc_answers {klass : UInt32} {r : ℤ × Dev C}
    (h : d.exec plat p (.deleteTxc klass) = .ok r) : Answers plat p (.deleteTxc klass) d r := by
  have h : d.isoSysDeleteTxc plat p klass = .ok r := h
  unfold isoSysDeleteTxc TxContext.isoSysDeleteTxc at h
  cases hfind : d.tx.isoTxcFind plat klass with
  | none =>
    rw [hfind] at h
    rw [← Except.ok.inj h]
    exact .of_refused (by simp [Accepts, hfind])
  | some k =>
    rw [hfind] at h
    obtain ⟨r', hwalk, hr⟩ := bind_eq_ok h
    rw [← Except.ok.inj hr, walked_eq_ok hwalk]
    refine .of_accepted (by simp [Accepts, hfind]) (iff_of_false ?_ id)
    rintro ⟨k', ⟨-, hmem⟩, -, hnot⟩
    refine hnot ?_
    have hlist := (TxContext.Reconfigured.refl { d.tx with
      isoTxBucket := unlink d.tx.isoTxBucket k
      txcTotalWeight := s32 (d.tx.txcTotalWeight - (d.tx.txcs k).weight) }).isoTxcRecomputeRates
        (p := p)
    have hrelease : ∀ (e : Dev C) (vq : Option ℕ), (e.release vq).tx = e.tx := by
      intro e vq
      cases vq with
      | none => rfl
      | some v => rfl
    rw [hrelease]
    exact hlist.txcList.symm ▸ hmem

/-! ### The commands on VQs -/

theorem hasVq_and_iff {klass : UInt32} {v : ℕ}
    (hfind : d.rx.isoVqFind plat klass = some v) {P : ℕ → Prop} (hP : P v) :
    (∃ v, d.HasVq plat klass v ∧ P v) ↔ ∃ v, d.HasVq plat klass v := by
  constructor
  · rintro ⟨v', hv', -⟩
    exact ⟨v', hv'⟩
  · rintro ⟨v', hv'⟩
    obtain rfl : v = v' := Option.some.inj (hfind.symm.trans hv'.1)
    exact ⟨v, hv', hP⟩

theorem lift_eq_ok {α : Type} {x : Except Fault α} {a : α} (h : lift x = .ok a) : x = .ok a := by
  cases x with
  | ok a' => exact congrArg Except.ok (Except.ok.inj h)
  | error f => exact nomatch h

theorem onVq_eq_ok {klass : UInt32} {f : RxContext C → Except Fault (ℤ × RxContext C)}
    {r : ℤ × Dev C} (h : d.onVq plat klass f = .ok r) : ∃ rx, f d.rx = .ok (r.1, rx) ∧
    r.2 = { d with rx := rx } := by
  obtain ⟨_, -, h⟩ := bind_eq_ok h
  obtain ⟨⟨ret, rx⟩, hf, hr⟩ := bind_eq_ok h
  rw [← Except.ok.inj hr]
  exact ⟨rx, lift_eq_ok hf, rfl⟩

theorem setVqWeight_answers {klass : UInt32} {weight : ℤ} {r : ℤ × Dev C}
    (h : d.exec plat p (.setVqWeight klass weight) = .ok r) :
    Answers plat p (.setVqWeight klass weight) d r := by
  obtain ⟨ret, d'⟩ := r
  obtain ⟨rx, hf, rfl⟩ := onVq_eq_ok h
  unfold RxContext.isoSysSetVqWeight at hf
  cases hfind : d.rx.isoVqFind plat klass with
  | none =>
    rw [hfind] at hf
    obtain ⟨rfl, rfl⟩ := Prod.mk.inj (Except.ok.inj hf)
    exact .of_refused (by simp [Accepts, hfind])
  | some v =>
    rw [hfind] at hf
    dsimp only at hf
    split_ifs at hf with hrange
    · obtain ⟨rfl, rfl⟩ := Prod.mk.inj (Except.ok.inj hf)
      exact .of_refused (by simp only [Accepts]; omega)
    · obtain ⟨ctx, hrates, hf⟩ := bind_eq_ok hf
      obtain ⟨rfl, rfl⟩ := Prod.mk.inj (Except.ok.inj hf)
      refine .of_accepted ⟨by rw [hfind]; rfl, by omega, by omega⟩ (hasVq_and_iff hfind ?_)
      dsimp only
      rw [(RxContext.isoVqCalculateRates_keeps hrates v).1]
      simp only [RxContext.modifyVq, Function.update_self, u64OfInt]
      omega

theorem setVqRate_answers {klass : UInt32} {rate : ℤ} (hfits : rate < 2 ^ 31) {r : ℤ × Dev C}
    (h : d.exec plat p (.setVqRate klass rate) = .ok r) :
    Answers plat p (.setVqRate klass rate) d r := by
  obtain ⟨ret, d'⟩ := r
  obtain ⟨rx, hf, rfl⟩ := onVq_eq_ok h
  unfold RxContext.isoSysSetVqRate at hf
  cases hfind : d.rx.isoVqFind plat klass with
  | none =>
    rw [hfind] at hf
    obtain ⟨rfl, rfl⟩ := Prod.mk.inj (Except.ok.inj hf)
    exact .of_refused (by simp [Accepts, hfind])
  | some v =>
    rw [hfind] at hf
    dsimp only at hf
    split_ifs at hf with hrange hpos
    · obtain ⟨rfl, rfl⟩ := Prod.mk.inj (Except.ok.inj hf)
      exact .of_refused (by simp only [Accepts]; omega)
    · obtain ⟨rfl, rfl⟩ := Prod.mk.inj (Except.ok.inj hf)
      refine .of_accepted ⟨by rw [hfind]; rfl, by omega, by omega⟩ (hasVq_and_iff hfind ?_)
      simp only [RxContext.modifyVq, Function.update_self, u64OfInt]
      refine ⟨iff_of_true trivial (by omega), fun _ => ?_⟩
      omega
    · obtain ⟨ctx, hrates, hf⟩ := bind_eq_ok hf
      obtain ⟨rfl, rfl⟩ := Prod.mk.inj (Except.ok.inj hf)
      have hzero : rate = 0 := by omega
      refine .of_accepted ⟨by rw [hfind]; rfl, by omega, by omega⟩ (hasVq_and_iff hfind ?_)
      dsimp only
      rw [(RxContext.isoVqCalculateRates_keeps hrates v).2]
      simp [RxContext.modifyVq, hzero]

theorem deleteVq_answers {klass : UInt32} {r : ℤ × Dev C}
    (h : d.exec plat p (.deleteVq klass) = .ok r) : Answers plat p (.deleteVq klass) d r := by
  obtain ⟨found, hfound, h⟩ := bind_eq_ok (x := d.isoVqFind plat klass) h
  obtain rfl := (isoVqFind_ends plat d klass).of_eq_ok hfound
  cases hfind : d.rx.isoVqFind plat klass with
  | none =>
    rw [hfind] at h
    rw [← Except.ok.inj h]
    exact .of_refused (by simp [Accepts, hfind])
  | some v =>
    rw [hfind] at h
    dsimp only at h
    split_ifs at h with hbusy
    · rw [← Except.ok.inj h]
      refine .of_refused ?_
      rintro ⟨v', hv', hle⟩
      obtain rfl := Option.some.inj (hfind.symm.trans hv')
      omega
    · obtain ⟨d', hfree, h⟩ := bind_eq_ok h
      rw [← Except.ok.inj h]
      refine .of_accepted ⟨v, hfind, by omega⟩ (iff_of_false ?_ id)
      rintro ⟨v', ⟨hfind', -⟩, hnot, -⟩
      -- the chain has not been touched
      refine hnot (classHash plat klass) ?_
      rw [isoVqFree, if_neg hbusy] at hfree
      split_ifs at hfree
      rw [← Except.ok.inj hfree]
      exact List.mem_of_find?_eq_some hfind'

/-! ### The commands on both -/

theorem assocTxcVq_answers {txclass vqclass : UInt32} {r : ℤ × Dev C}
    (h : d.exec plat p (.assocTxcVq txclass vqclass) = .ok r) :
    Answers plat p (.assocTxcVq txclass vqclass) d r := by
  have h : d.isoSysAssocTxcVq plat txclass vqclass = .ok r := h
  unfold isoSysAssocTxcVq Host.isoSysAssocTxcVq at h
  cases hk : d.tx.isoTxcFind plat txclass with
  | none =>
    rw [hk] at h
    rw [← Except.ok.inj h]
    exact .of_refused (by simp [Accepts, hk])
  | some k =>
    rw [hk] at h
    obtain ⟨_, -, h⟩ := bind_eq_ok h
    rw [← Except.ok.inj h]
    cases hv : d.rx.isoVqFind plat vqclass with
    | none => exact .of_refused (by simp [Accepts, hv])
    | some v =>
      refine .of_accepted ⟨by rw [hk]; rfl, by rw [hv]; rfl⟩ ?_
      constructor
      · rintro ⟨k', v', hk', hv', -⟩
        exact ⟨⟨k', hk'⟩, v', hv'⟩
      · rintro ⟨⟨k', hk'⟩, v', hv'⟩
        obtain rfl : k = k' := Option.some.inj (hk.symm.trans hk'.1)
        obtain rfl : v = v' := Option.some.inj (hv.symm.trans hv'.1)
        refine ⟨k, v, hk', hv', ?_⟩
        simp [TxContext.assoc, hk, TxContext.modifyTxc, TxClass.setVq]

theorem recomputeDev_answers {r : ℤ × Dev C} (h : d.exec plat p .recomputeDev = .ok r) :
    Answers plat p .recomputeDev d r := by
  obtain ⟨r', hwalk, h⟩ := bind_eq_ok (x := d.walked 0 (d.tx.isoTxcRecomputeRates p)) h
  rw [walked_eq_ok hwalk] at h
  obtain ⟨rx, hrates, h⟩ := bind_eq_ok h
  rw [← Except.ok.inj h]
  refine .of_accepted trivial (iff_of_true ?_ trivial)
  have hlist := ((TxContext.Reconfigured.refl d.tx).isoTxcRecomputeRates (p := p)).txcList
  obtain ⟨rx', heq, hvqList, hvqs⟩ := RxContext.isoVqCalculateRates_eq p d.rx
  obtain rfl := Except.ok.inj (heq.symm.trans (lift_eq_ok hrates))
  have htotal := RxContext.isoVqCalculateRates_total heq
  constructor
  · dsimp only
    rw [TxContext.isoTxcRecomputeRates_total, hlist]
    exact fun htotal k hk => TxContext.recomputeRate_recomputed htotal hk
  · dsimp only
    rw [htotal, hvqList]
    intro hpos v hv
    rw [hvqs, if_pos ⟨hpos, hv⟩, RxContext.calculated_calculated]

/-- The value that a command returns, against what it has done. -/
theorem exec_answers {op : Op} (hop : op.Answerable) {r : ℤ × Dev C}
    (h : d.exec plat p op = .ok r) :
    Answers plat p op d r := by
  cases op with
  | createTxc now kmalloc rounds klass => exact hop.elim
  | createVq now kmalloc percpu stale klass => exact hop.elim
  | assocTxcVq txclass vqclass => exact assocTxcVq_answers h
  | setTxcWeight klass weight => exact setTxcWeight_answers h
  | setTxcRate klass rate => exact setTxcRate_answers h
  | setVqWeight klass weight => exact setVqWeight_answers h
  | setVqRate klass rate => exact setVqRate_answers hop h
  | deleteTxc klass => exact deleteTxc_answers h
  | deleteVq klass => exact deleteVq_answers h
  | recomputeDev => exact recomputeDev_answers h

/-! ### Numbers -/

/-- A command with its number as an `int` holds it. -/
def Op.cut : Op → Op
  | .setTxcWeight klass weight => .setTxcWeight klass (s32 weight)
  | .setTxcRate klass rate => .setTxcRate klass (s32 rate)
  | .setVqWeight klass weight => .setVqWeight klass (s32 weight)
  | .setVqRate klass rate => .setVqRate klass (s32 rate)
  | op => op

/-- A cap that is in effect is one number. -/
theorem cap_inj {isStatic : Bool} {cap : ℕ} {m n : ℤ} (hm : isStatic ↔ m ≠ 0)
    (hm' : m ≠ 0 → (cap : ℤ) = m) (hn : isStatic ↔ n ≠ 0) (hn' : n ≠ 0 → (cap : ℤ) = n) :
    m = n := by
  by_cases hzero : m = 0
  · have : ¬ n ≠ 0 := fun hne => hm.mp (hn.mpr hne) hzero
    omega
  · rw [← hm' hzero, hn' (hn.mp (hm.mpr hzero))]

/-- If what was asked for is in effect, its number was not cut. -/
theorem Answers.cut_eq_of_done {op : Op} (h : Answers plat p op.cut d (0, d'))
    (hdone : Done plat p op d d') : op.cut = op := by
  cases op with
  | setTxcWeight klass weight =>
    obtain ⟨k, hk, hweight⟩ := hdone
    obtain ⟨k', hk', hweight'⟩ := (h.done rfl).mpr ⟨k, hk⟩
    obtain rfl : k = k' := Option.some.inj (hk.1.symm.trans hk'.1)
    rw [Op.cut, ← hweight', hweight]
  | setTxcRate klass rate =>
    obtain ⟨k, hk, hstatic, hcap⟩ := hdone
    obtain ⟨k', hk', hstatic', hcap'⟩ := (h.done rfl).mpr ⟨k, hk⟩
    obtain rfl : k = k' := Option.some.inj (hk.1.symm.trans hk'.1)
    rw [Op.cut, cap_inj hstatic' hcap' hstatic hcap]
  | setVqWeight klass weight =>
    obtain ⟨v, hv, hweight⟩ := hdone
    obtain ⟨v', hv', hweight'⟩ := (h.done rfl).mpr ⟨v, hv⟩
    obtain rfl : v = v' := Option.some.inj (hv.1.symm.trans hv'.1)
    rw [Op.cut, ← hweight', hweight]
  | setVqRate klass rate =>
    obtain ⟨v, hv, hstatic, hcap⟩ := hdone
    obtain ⟨v', hv', hstatic', hcap'⟩ := (h.done rfl).mpr ⟨v, hv⟩
    obtain rfl : v = v' := Option.some.inj (hv.1.symm.trans hv'.1)
    rw [Op.cut, cap_inj hstatic' hcap' hstatic hcap]
  | _ => rfl

end Dev

end EyeQ
