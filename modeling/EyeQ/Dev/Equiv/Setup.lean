import EyeQ.Dev.Equiv.Effect
import EyeQ.Dev.Equiv.Guarantee
import EyeQ.Dev.Setup

/-!
# The commands do what they are for

As long as nothing is deleted, a device does with its configuration what a `Setup` does: for the
commands that create VQs and classes, set their weights and associate them, `Dev.attempt` and the
command of `Setup` are refused together, and lead to the same configuration otherwise (`Holds`).  A
device without deletions is `Tidy`: its indexes lead to the same objects, no two of which have one
class, and its classes point to VQs on the list.
-/

namespace EyeQ

open Machine Keyed

variable {C : Type} {plat : Platform} {p : Params}

namespace Dev

variable {d d' : Dev C}

/-- A command that has to return `0`. -/
def attempt (plat : Platform) (p : Params) (op : Op) (d : Dev C) : Option (Dev C) :=
  match d.exec plat p op with
  | .ok (ret, d') => if ret = 0 then some d' else none
  | .error _ => none

/-- A device on which nothing was deleted. -/
structure Tidy (plat : Platform) (d : Dev C) : Prop where
  vqIndexed : d.Indexed plat
  txIndexed : d.tx.Indexed plat
  txFreed : d.tx.freed = []
  txcLoop : d.txcLoop = false
  vqKeys : (keys VqSetup.klass d.setup.vqs).Nodup
  txcKeys : (keys TxcSetup.klass d.setup.txcs).Nodup
  assoc : ∀ k ∈ d.tx.hashed, ∀ v, (d.tx.txcs k).vq = some v → v ∈ d.rx.vqList

/-- The device has the configuration `m`. -/
structure Holds (plat : Platform) (d : Dev C) (m : Setup) : Prop where
  tidy : d.Tidy plat
  same : d.setup.Same m

theorem init_holds (plat : Platform) (p : Params) (statsNow rcpNow : ℕ) :
    (init p statsNow rcpNow : Dev C).Holds plat {} := by
  have hhashed : (init p statsNow rcpNow : Dev C).tx.hashed = [] := by
    rw [TxContext.hashed, entries, List.flatMap_eq_nil_iff]
    exact fun _ _ => rfl
  have htxcs : (init p statsNow rcpNow : Dev C).setup.txcs = [] := by
    rw [Host.setup, hhashed, List.map_nil]
  refine ⟨⟨init_indexed plat p statsNow rcpNow, TxContext.init_indexed plat p, rfl, rfl,
    List.nodup_nil, ?_, ?_⟩, .refl _, ?_⟩
  · rw [htxcs]
    exact List.nodup_nil
  · rw [hhashed]
    exact fun _ hk => absurd hk List.not_mem_nil
  · rw [htxcs]

/-! ### What is found -/

theorem Tidy.isoVqFind_eq (h : d.Tidy plat) (klass : UInt32) :
    d.isoVqFind plat klass = .ok (d.rx.isoVqFind plat klass) := by
  rw [isoVqFind, h.vqIndexed.loop]
  cases d.rx.isoVqFind plat klass <;> rfl

theorem Tidy.mem_vqKeys_iff (h : d.Tidy plat) {klass : UInt32} :
    klass ∈ keys VqSetup.klass d.setup.vqs ↔ d.rx.isoVqFind plat klass ≠ none := by
  have hfind := h.vqIndexed.consistent.find_iff klass
  rw [h.isoVqFind_eq, Ne, Except.ok.injEq] at hfind
  rw [Ne, hfind, keys, Host.setup, List.map_map, List.mem_map]
  rfl

/-- The VQ that is found is the one of its class. -/
theorem Tidy.vq_of_find (h : d.Tidy plat) {klass : UInt32} {v : ℕ}
    (hfind : d.rx.isoVqFind plat klass = some v) :
    v ∈ d.rx.vqList ∧ ∀ y ∈ d.rx.vqList, (d.rx.vqs y).klass = klass ↔ y = v := by
  have hklass : (d.rx.vqs v).klass = klass := by simpa using List.find?_some hfind
  have hmem : v ∈ d.rx.vqList :=
    (h.vqIndexed.consistent.list_iff_hashed v).mpr ⟨_, List.mem_of_find?_eq_some hfind⟩
  have hnodup : (d.rx.vqList.map fun y => (d.rx.vqs y).klass).Nodup := by
    have hkeys := h.vqKeys
    rw [keys, Host.setup, List.map_map] at hkeys
    exact hkeys
  refine ⟨hmem, fun y hy => ⟨fun hyk => ?_, fun hyv => hyv ▸ hklass⟩⟩
  exact List.inj_on_of_nodup_map hnodup hy hmem (hyk.trans hklass.symm)

theorem Tidy.mem_hashed_iff (h : d.Tidy plat) {k : ℕ} : k ∈ d.tx.hashed ↔ k < d.tx.brk := by
  rw [TxContext.Hashes.mem_hashed h.txIndexed.chained, h.txIndexed.hashed_iff, h.txFreed]
  simp

theorem Tidy.mem_txcKeys_iff (h : d.Tidy plat) {klass : UInt32} :
    klass ∈ keys TxcSetup.klass d.setup.txcs ↔ d.tx.isoTxcFind plat klass ≠ none := by
  rw [h.txIndexed.isoTxcFind_ne_none_iff, keys, Host.setup, List.map_map, List.mem_map]
  simp only [h.mem_hashed_iff, h.txFreed, List.not_mem_nil, not_false_eq_true, and_true]
  rfl

/-- The class that is found is the only one of its name. -/
theorem Tidy.txc_of_find (h : d.Tidy plat) {klass : UInt32} {k : ℕ}
    (hfind : d.tx.isoTxcFind plat klass = some k) :
    k ∈ d.tx.hashed ∧ ∀ y ∈ d.tx.hashed, (d.tx.txcs y).klass = klass ↔ y = k := by
  have hklass : (d.tx.txcs k).klass = klass := by simpa using List.find?_some hfind
  have hmem : k ∈ d.tx.hashed := TxContext.Hashes.mem_hashed_of_find h.txIndexed.chained hfind
  have hnodup : (d.tx.hashed.map fun y => (d.tx.txcs y).klass).Nodup := by
    have hkeys := h.txcKeys
    rw [keys, Host.setup, List.map_map] at hkeys
    exact hkeys
  refine ⟨hmem, fun y hy => ⟨fun hyk => ?_, fun hyk => hyk ▸ hklass⟩⟩
  exact List.inj_on_of_nodup_map hnodup hy hmem (hyk.trans hklass.symm)

/-! ### VQs -/

theorem calculated_setup (total : ℕ) (vq : Vq C) :
    (RxContext.calculated p total vq).setup = vq.setup := by
  unfold RxContext.calculated
  split_ifs with hstatic
  · rfl
  · simp [Vq.setup, hstatic]

/-- The rates are no part of the configuration. -/
theorem isoVqCalculateRates_setup {ctx ctx' : RxContext C}
    (h : RxContext.isoVqCalculateRates p ctx = .ok ctx') :
    ctx'.vqList = ctx.vqList ∧ ∀ v, (ctx'.vqs v).setup = (ctx.vqs v).setup := by
  obtain ⟨ctx'', heq, hlist, hvqs⟩ := RxContext.isoVqCalculateRates_eq p ctx
  obtain rfl := Except.ok.inj (heq.symm.trans h)
  refine ⟨hlist, fun v => ?_⟩
  rw [hvqs]
  split_ifs
  · exact calculated_setup _ _
  · rfl

/-- A command that is taken, or refused. -/
theorem attempt_of_ok {op : Op} {ret : ℤ} (h : d.exec plat p op = .ok (ret, d')) :
    d.attempt plat p op = if ret = 0 then some d' else none := by
  rw [attempt, h]

theorem step_of_exec {op : Op} {ret : ℤ} (h : d.exec plat p op = .ok (ret, d')) :
    step plat p d op = .ok d' := by
  rw [step, h]
  rfl

theorem addr_of_ne_fail {kmalloc : Alloc} (halloc : kmalloc ≠ .fail) (brk : ℕ) :
    kmalloc.addr brk [] = some brk := by
  cases kmalloc with
  | fail => exact absurd rfl halloc
  | fresh => rfl
  | again a => rw [Alloc.addr, if_neg List.not_mem_nil]

/-- What does not change a class and the classes of its VQs does not change its configuration. -/
theorem Tidy.txcs_eq (h : d.Tidy plat) (htx : d'.tx = d.tx)
    (hrx : ∀ v ∈ d.rx.vqList, (d'.rx.vqs v).klass = (d.rx.vqs v).klass) :
    d'.setup.txcs = d.setup.txcs := by
  unfold Host.setup
  rw [htx]
  refine List.map_congr_left fun k hk => ?_
  unfold TxClass.setup
  cases hvq : (d.tx.txcs k).vq with
  | none => rfl
  | some v => rw [Option.map_some, Option.map_some, hrx v (h.assoc k hk v hvq)]

/-- A command on the VQs. -/
theorem Tidy.holds_of_vqs (h : d.Tidy plat) (htx : d'.tx = d.tx) (hloop : d'.txcLoop = d.txcLoop)
    (hindexed : d'.Indexed plat)
    (hold : ∀ v ∈ d.rx.vqList, v ∈ d'.rx.vqList ∧ (d'.rx.vqs v).klass = (d.rx.vqs v).klass)
    {vqs : List VqSetup} (hvqs : d'.setup.vqs = vqs) (hkeys : (keys VqSetup.klass vqs).Nodup) :
    d'.Holds plat { d.setup with vqs := vqs } := by
  have htxcs : d'.setup.txcs = d.setup.txcs := h.txcs_eq htx fun v hv => (hold v hv).2
  refine ⟨⟨hindexed, htx ▸ h.txIndexed, htx ▸ h.txFreed, hloop.trans h.txcLoop, hvqs ▸ hkeys,
    htxcs ▸ h.txcKeys, ?_⟩, .of_eq hvqs, .of_eq htxcs⟩
  rw [htx]
  exact fun k hk v hv => (hold v (h.assoc k hk v hv)).1

theorem createVq_refines (h : d.Tidy plat) (now : ℕ) {kmalloc : Alloc}
    (halloc : kmalloc ≠ .fail) (percpu : Bool) (stale : ℤ) (klass : UInt32) :
    Option.Rel (Holds plat) (d.attempt plat p (.createVq now kmalloc percpu stale klass))
      (d.setup.createVq klass) := by
  have hmem : klass ∈ keys VqSetup.klass d.setup.vqs ↔ _ := h.mem_vqKeys_iff
  cases hfind : d.rx.isoVqFind plat klass with
  | some v =>
    have hexec : d.exec plat p (.createVq now kmalloc percpu stale klass) = .ok (-1, d) := by
      rw [exec, isoVqInstall, h.isoVqFind_eq, hfind]
      rfl
    rw [hfind] at hmem
    rw [attempt_of_ok hexec, Setup.createVq, Setup.onVqs, install,
      if_pos (hmem.mpr (Option.some_ne_none _))]
    exact .none
  | none =>
    rw [hfind] at hmem
    have hnew : klass ∉ keys VqSetup.klass d.setup.vqs := fun hk => hmem.mp hk rfl
    have hinstall : install VqSetup.klass ⟨klass, 1, none⟩ d.setup.vqs =
        some (d.setup.vqs ++ [⟨klass, 1, none⟩]) :=
      if_neg hnew
    have haddr : kmalloc.addr d.rx.brk d.vqFreed = some d.rx.brk := by
      rw [h.vqIndexed.freed]
      exact addr_of_ne_fail halloc d.rx.brk
    let vq : Vq C := { Vq.init p now percpu klass with refcnt := if percpu then 0 else stale }
    obtain ⟨rx, hrx, -, -⟩ := RxContext.isoVqCalculateRates_eq p (linkVq plat d.rx.brk vq d.rx)
    obtain ⟨hlist, hvqs⟩ := isoVqCalculateRates_setup hrx
    let d₁ : Dev C := { d with
      rx := rx
      vqFreed := d.vqFreed.erase d.rx.brk
      vqLoop := reloop d.rx.vqBucket d.vqLoop (classHash plat klass) d.rx.brk }
    have hexec : d.exec plat p (.createVq now kmalloc percpu stale klass) = .ok (0, d₁) := by
      have halloc : isoVqAlloc plat p now d.rx.brk percpu stale klass d = .ok d₁ := by
        have hlift : lift (RxContext.isoVqCalculateRates p (linkVq plat d.rx.brk vq d.rx)) =
            .ok rx := by
          rw [hrx]
          rfl
        exact congrArg (· >>= fun rx => pure { d with
          rx := rx
          vqFreed := d.vqFreed.erase d.rx.brk
          vqLoop := reloop d.rx.vqBucket d.vqLoop (classHash plat klass) d.rx.brk }) hlift
      rw [exec, isoVqInstall, h.isoVqFind_eq, hfind, haddr]
      exact congrArg (· >>= fun d => pure (0, d)) halloc
    -- the VQs that were there have other addresses
    have hold : ∀ v ∈ d.rx.vqList, (rx.vqs v).setup = (d.rx.vqs v).setup := by
      intro v hv
      rw [hvqs v, linkVq]
      simp only [Function.update_of_ne ((h.vqIndexed.mem_list_iff v).mp hv).ne]
    have hself : (rx.vqs d.rx.brk).setup = ⟨klass, 1, none⟩ := by
      rw [hvqs, linkVq]
      simp only [Function.update_self]
      rfl
    rw [attempt_of_ok hexec, if_pos rfl, Setup.createVq, Setup.onVqs, hinstall, Option.map_some]
    refine .some (@Tidy.holds_of_vqs C plat d d₁ h rfl rfl ?_ ?_ _ ?_
      (nodup_install h.vqKeys hinstall))
    · exact h.vqIndexed.step (Op.not_freesVq fun _ => Op.noConfusion) (step_of_exec hexec)
    · refine fun v hv => ⟨?_, congrArg VqSetup.klass (hold v hv)⟩
      show v ∈ rx.vqList
      rw [hlist]
      exact List.mem_append_left _ hv
    · show rx.vqList.map (fun v => (rx.vqs v).setup) = _
      rw [hlist, linkVq, List.map_append, List.map_singleton, hself, List.map_congr_left hold]
      rfl

theorem Tidy.onVq_eq (h : d.Tidy plat) {klass : UInt32}
    {f : RxContext C → Except Fault (ℤ × RxContext C)} {ret : ℤ} {rx : RxContext C}
    (hf : f d.rx = .ok (ret, rx)) : d.onVq plat klass f = .ok (ret, { d with rx := rx }) := by
  rw [onVq, h.isoVqFind_eq, hf]
  rfl

theorem setVqWeight_refines (h : d.Tidy plat) (klass : UInt32) (weight : ℤ) :
    Option.Rel (Holds plat) (d.attempt plat p (.setVqWeight klass weight))
      (d.setup.setVqWeight klass weight) := by
  have hmem : klass ∈ keys VqSetup.klass d.setup.vqs ↔ _ := h.mem_vqKeys_iff
  cases hfind : d.rx.isoVqFind plat klass with
  | none =>
    have hexec : d.exec plat p (.setVqWeight klass weight) = .ok (-einval, d) :=
      h.onVq_eq (by rw [RxContext.isoSysSetVqWeight, hfind]; rfl)
    rw [hfind] at hmem
    have hnew : klass ∉ keys VqSetup.klass d.setup.vqs := fun hk => hmem.mp hk rfl
    rw [attempt_of_ok hexec, Setup.setVqWeight, Setup.onVqs, edit, if_neg hnew,
      Option.map_none, ite_self]
    exact .none
  | some v =>
    rw [hfind] at hmem
    by_cases hrange : Setup.InRange weight
    · obtain ⟨hv, honly⟩ := h.vq_of_find hfind
      obtain ⟨rx, hrx, -, -⟩ := RxContext.isoVqCalculateRates_eq p
        (d.rx.modifyVq v fun vq => { vq with weight := u64OfInt weight })
      obtain ⟨hlist, hvqs⟩ := isoVqCalculateRates_setup hrx
      have hexec : d.exec plat p (.setVqWeight klass weight) = .ok (0, { d with rx := rx }) := by
        refine h.onVq_eq ?_
        have hout : ¬ (weight < 0 ∨ weight > 1024) := by
          have := hrange.1
          have := hrange.2
          omega
        simp only [RxContext.isoSysSetVqWeight, hfind, if_neg hout, hrx]
        rfl
      have hedit : edit VqSetup.klass klass (fun vq => { vq with weight := weight.toNat })
          d.setup.vqs = some _ :=
        if_pos (hmem.mpr (Option.some_ne_none _))
      have hweight : u64OfInt weight = weight.toNat := by
        have := hrange.1
        have := hrange.2
        rw [u64OfInt]
        omega
      rw [attempt_of_ok hexec, if_pos rfl, Setup.setVqWeight, if_pos hrange, Setup.onVqs,
        hedit, Option.map_some]
      refine .some (@Tidy.holds_of_vqs C plat d { d with rx := rx } h rfl rfl ?_ ?_ _ ?_ ?_)
      · exact h.vqIndexed.step (Op.not_freesVq fun _ => Op.noConfusion) (step_of_exec hexec)
      · have hsame := (RxContext.SameIndex.refl d.rx).modifyVq v
          (f := fun vq => { vq with weight := u64OfInt weight }) rfl
        refine fun y hy => ⟨hlist.symm ▸ hy, ?_⟩
        exact (congrArg VqSetup.klass (hvqs y)).trans (hsame.klass y)
      · show rx.vqList.map (fun v => (rx.vqs v).setup) = _
        rw [hlist]
        simp only [hvqs]
        exact map_update honly (by rw [hweight]; rfl)
      · rw [keys_edit hedit fun _ => rfl]
        exact h.vqKeys
    · have hexec : d.exec plat p (.setVqWeight klass weight) = .ok (-einval, d) := by
        refine h.onVq_eq ?_
        have hout : weight < 0 ∨ weight > 1024 := by
          unfold Setup.InRange at hrange
          omega
        simp only [RxContext.isoSysSetVqWeight, hfind, if_pos hout]
        rfl
      rw [attempt_of_ok hexec, Setup.setVqWeight, if_neg hrange]
      exact .none

/-! ### Classes -/

/-- The rates are no part of the configuration. -/
theorem isoTxcRecomputeRates_setup (rx : RxContext C) (ctx : TxContext C) (k : ℕ) :
    ((TxContext.isoTxcRecomputeRates p ctx).txcs k).setup rx = (ctx.txcs k).setup rx :=
  TxContext.isoTxcRecomputeRates_field (TxClass.setup rx) (fun _ _ => rfl) ctx k

theorem init_setup (rx : RxContext C) (now : ℕ) (rounds : List Bool) (klass : UInt32) :
    (TxClass.isoTxcPrealloc p now rounds (TxClass.init p now klass : TxClass C)).setup rx =
    ⟨klass, 1, none, none⟩ :=
  (TxClass.isoTxcPrealloc_field (TxClass.setup rx) (fun _ => rfl) rounds _).trans rfl

/-- A command on the classes. -/
theorem Tidy.holds_of_txcs (h : d.Tidy plat) (hrx : d'.rx = d.rx) (hvq : d'.vqFreed = d.vqFreed)
    (hvqLoop : d'.vqLoop = d.vqLoop) (htx : TxStepped plat p d d') (hfreed : d'.tx.freed = [])
    (hassoc : ∀ k ∈ d'.tx.hashed, ∀ v, (d'.tx.txcs k).vq = some v → v ∈ d.rx.vqList)
    {txcs : List TxcSetup} (htxcs : d'.setup.txcs.Perm txcs)
    (hkeys : (keys TxcSetup.klass txcs).Nodup) :
    d'.Holds plat { d.setup with txcs := txcs } := by
  have hvqs : d'.setup.vqs = d.setup.vqs := by
    unfold Host.setup
    rw [hrx]
  have hindexed : d'.tx.Indexed plat := by
    rcases htx.2 with heq | ⟨op, heq⟩
    · exact heq ▸ h.txIndexed
    · exact heq ▸ h.txIndexed.step op
  refine ⟨⟨h.vqIndexed.congr (hrx ▸ .refl _) hvq hvqLoop, hindexed, hfreed, htx.1,
    hvqs ▸ h.vqKeys, ?_, hrx ▸ hassoc⟩, .of_eq hvqs, htxcs⟩
  exact (htxcs.map _).nodup_iff.mpr hkeys

theorem Tidy.walked_eq (h : d.Tidy plat) (ret : ℤ) (tx : TxContext C) :
    d.walked ret tx = .ok (ret, { d with tx := tx }) := by
  rw [walked, h.txcLoop]
  simp

theorem createTxc_refines (h : d.Tidy plat) (now : ℕ) {kmalloc : Alloc} (halloc : kmalloc ≠ .fail)
    (rounds : List Bool) (klass : UInt32) :
    Option.Rel (Holds plat) (d.attempt plat p (.createTxc now kmalloc rounds klass))
      (d.setup.createTxc klass) := by
  have hmem : klass ∈ keys TxcSetup.klass d.setup.txcs ↔ _ := h.mem_txcKeys_iff
  cases hfind : d.tx.isoTxcFind plat klass with
  | some k =>
    have hexec : d.exec plat p (.createTxc now kmalloc rounds klass) = .ok (-1, d) := by
      rw [exec, isoTxcMarkInstall, hfind]
      rfl
    rw [hfind] at hmem
    rw [attempt_of_ok hexec, Setup.createTxc, Setup.onTxcs, install,
      if_pos (hmem.mpr (Option.some_ne_none _))]
    exact .none
  | none =>
    rw [hfind] at hmem
    have hnew : klass ∉ keys TxcSetup.klass d.setup.txcs := fun hk => hmem.mp hk rfl
    have hinstall : install TxcSetup.klass ⟨klass, 1, none, none⟩ d.setup.txcs =
        some (d.setup.txcs ++ [⟨klass, 1, none, none⟩]) := if_neg hnew
    have haddr : kmalloc.addr d.tx.brk d.tx.freed = some d.tx.brk := by
      rw [h.txFreed]
      exact addr_of_ne_fail halloc d.tx.brk
    have hlist : d.tx.brk ∉ d.tx.txcList :=
      fun hk => Nat.lt_irrefl _ ((h.txIndexed.mem_list_iff _).mp hk)
    have hlast : d.tx.txcList.getLast? ≠ some d.tx.brk :=
      fun hlast => hlist (List.mem_of_getLast? hlast)
    let txc : TxClass C := TxClass.isoTxcPrealloc p now rounds (TxClass.init p now klass)
    let tx : TxContext C := { d.tx with
      txcs := Function.update d.tx.txcs d.tx.brk txc
      brk := max d.tx.brk (d.tx.brk + 1)
      isoTxBucket := addHead d.tx.isoTxBucket (classHash plat klass) d.tx.brk
      txcList := relinkTail d.tx.txcList d.tx.brk
      txcTotalWeight := s32 (d.tx.txcTotalWeight + txc.weight)
      freed := d.tx.freed.erase d.tx.brk }
    let d₁ : Dev C := { d with tx := tx.isoTxcRecomputeRates p, txcLoop := false }
    have hexec : d.exec plat p (.createTxc now kmalloc rounds klass) = .ok (0, d₁) := by
      rw [exec, isoTxcMarkInstall, hfind, haddr]
      show isoTxcAlloc plat p now d.tx.brk rounds klass d = _
      rw [isoTxcAlloc, walked]
      simp only [hlast, decide_false, Bool.false_eq_true, false_and, and_false, if_false]
      rfl
    have hhashed : d₁.tx.hashed.Perm (d.tx.brk :: d.tx.hashed) := by
      show (TxContext.isoTxcRecomputeRates p tx).hashed.Perm _
      rw [TxContext.isoTxcRecomputeRates_hashed]
      exact entries_addHead TxContext.txBuckets_nodup
        (TxContext.classHash_mem_txBuckets plat klass) _
    -- the classes that were there have other addresses
    have hold : ∀ k ∈ d.tx.hashed, (d₁.tx.txcs k).setup d₁.rx = (d.tx.txcs k).setup d.rx := by
      intro k hk
      refine (isoTxcRecomputeRates_setup d.rx tx k).trans ?_
      simp only [tx, Function.update_of_ne (h.mem_hashed_iff.mp hk).ne]
    have hself : (d₁.tx.txcs d.tx.brk).setup d₁.rx = ⟨klass, 1, none, none⟩ := by
      refine (isoTxcRecomputeRates_setup d.rx tx d.tx.brk).trans ?_
      simp only [tx, Function.update_self]
      exact init_setup d.rx now rounds klass
    have htxcs : d₁.setup.txcs.Perm (d.setup.txcs ++ [⟨klass, 1, none, none⟩]) := by
      have hperm := hhashed.map fun k => (d₁.tx.txcs k).setup d₁.rx
      rw [List.map_cons, hself, List.map_congr_left hold] at hperm
      exact hperm.trans (List.perm_append_singleton _ _).symm
    have hfresh : (Op.createTxc now kmalloc rounds klass).FreshTxc d := by
      intro k hk
      rw [h.txFreed] at hk
      exact absurd hk List.not_mem_nil
    have hstep : TxStepped plat p d d₁ :=
      (step_tx h.txIndexed h.txcLoop hfresh).of_eq_ok (step_of_exec hexec)
    rw [attempt_of_ok hexec, if_pos rfl, Setup.createTxc, Setup.onTxcs, hinstall, Option.map_some]
    refine .some (@Tidy.holds_of_txcs C plat p d d₁ h rfl rfl rfl hstep ?_ ?_ _ htxcs
      (nodup_install h.txcKeys hinstall))
    · show (TxContext.isoTxcRecomputeRates p tx).freed = []
      rw [((TxContext.Reconfigured.refl tx).isoTxcRecomputeRates).freed]
      simp only [tx, h.txFreed, List.erase_nil]
    · intro k hk v hv
      rcases List.mem_cons.mp (hhashed.mem_iff.mp hk) with rfl | hk
      · -- the new class points to no VQ
        have hassoc := congrArg TxcSetup.assoc hself
        rw [TxClass.setup, hv] at hassoc
        cases hassoc
      · have hvq := TxContext.isoTxcRecomputeRates_field (p := p) TxClass.vq (fun _ _ => rfl) tx k
        simp only [tx, Function.update_of_ne (h.mem_hashed_iff.mp hk).ne] at hvq
        exact h.assoc k hk v (hvq.symm.trans hv)

theorem setTxcWeight_refines (h : d.Tidy plat) (klass : UInt32) (weight : ℤ) :
    Option.Rel (Holds plat) (d.attempt plat p (.setTxcWeight klass weight))
      (d.setup.setTxcWeight klass weight) := by
  have hmem : klass ∈ keys TxcSetup.klass d.setup.txcs ↔ _ := h.mem_txcKeys_iff
  have hwalked : d.exec plat p (.setTxcWeight klass weight) = .ok
      ((d.tx.isoSysSetTxcWeight plat p klass weight).1,
        { d with tx := (d.tx.isoSysSetTxcWeight plat p klass weight).2 }) := h.walked_eq _ _
  cases hfind : d.tx.isoTxcFind plat klass with
  | none =>
    rw [hfind] at hmem
    have hnew : klass ∉ keys TxcSetup.klass d.setup.txcs := fun hk => hmem.mp hk rfl
    have hret : (d.tx.isoSysSetTxcWeight plat p klass weight).1 = -einval := by
      rw [TxContext.isoSysSetTxcWeight, hfind]
    rw [attempt_of_ok hwalked, hret, Setup.setTxcWeight, Setup.onTxcs, edit, if_neg hnew,
      Option.map_none, ite_self]
    exact .none
  | some k =>
    rw [hfind] at hmem
    by_cases hrange : Setup.InRange weight
    · obtain ⟨hk, honly⟩ := h.txc_of_find hfind
      have hout : ¬ (weight < 0 ∨ weight > 1024) := by
        have := hrange.1
        have := hrange.2
        omega
      let tx : TxContext C := { d.tx.modifyTxc k (TxClass.setWeight weight.toNat) with
        txcTotalWeight := s32 (s32 (d.tx.txcTotalWeight - (d.tx.txcs k).weight) + weight) }
      have hset : d.tx.isoSysSetTxcWeight plat p klass weight = (0, tx.isoTxcRecomputeRates p) := by
        simp only [TxContext.isoSysSetTxcWeight, hfind, if_neg hout]
        rfl
      rw [hset] at hwalked
      have hedit : edit TxcSetup.klass klass (fun txc => { txc with weight := weight.toNat })
          d.setup.txcs = some _ :=
        if_pos (hmem.mpr (Option.some_ne_none _))
      have hreconf : d.tx.Reconfigured (tx.isoTxcRecomputeRates p) := by
        have hreconf : d.tx.Reconfigured (d.tx.isoSysSetTxcWeight plat p klass weight).2 :=
          TxContext.isoSysSetTxcWeight_reconfigured klass weight
        rwa [hset] at hreconf
      have hhashed : (tx.isoTxcRecomputeRates p).hashed = d.tx.hashed := by
        rw [TxContext.hashed, hreconf.isoTxBucket, TxContext.hashed]
      have hfresh : (Op.setTxcWeight klass weight).FreshTxc d := trivial
      have hstep : TxStepped plat p d { d with tx := tx.isoTxcRecomputeRates p } :=
        (step_tx h.txIndexed h.txcLoop hfresh).of_eq_ok (step_of_exec hwalked)
      rw [attempt_of_ok hwalked, if_pos rfl, Setup.setTxcWeight, if_pos hrange, Setup.onTxcs,
        hedit, Option.map_some]
      refine .some (@Tidy.holds_of_txcs C plat p d { d with tx := tx.isoTxcRecomputeRates p }
        h rfl rfl rfl hstep (hreconf.freed.trans h.txFreed) ?_ _ (.of_eq ?_) ?_)
      · intro k' hk' v hv
        have hvq := hreconf.field TxClass.vq (fun _ _ _ _ _ _ => rfl) k'
        exact h.assoc k' (hhashed ▸ hk') v (hvq.symm.trans hv)
      · show (tx.isoTxcRecomputeRates p).hashed.map
          (fun k => ((tx.isoTxcRecomputeRates p).txcs k).setup d.rx) = _
        rw [hhashed]
        simp only [isoTxcRecomputeRates_setup]
        exact map_update honly rfl
      · rw [keys_edit hedit fun _ => rfl]
        exact h.txcKeys
    · have hret : (d.tx.isoSysSetTxcWeight plat p klass weight).1 = -einval := by
        have hout : weight < 0 ∨ weight > 1024 := by
          unfold Setup.InRange at hrange
          omega
        simp only [TxContext.isoSysSetTxcWeight, hfind, if_pos hout]
      rw [attempt_of_ok hwalked, hret, Setup.setTxcWeight, if_neg hrange]
      exact .none

/-! ### Associations -/

/-- The reference counts are no part of the configuration. -/
theorem assoc_setup (ctx : RxContext C) (old : Option ℕ) (klass : UInt32) (v : ℕ) :
    ((ctx.assoc plat old klass).vqs v).setup = (ctx.vqs v).setup := by
  have hmodify : ∀ (ctx : RxContext C) (w : ℕ) (n : ℤ),
      ((ctx.modifyVq w fun vq => { vq with refcnt := vq.refcnt + n }).vqs v).setup =
      (ctx.vqs v).setup := by
    intro ctx w n
    have hsame : ({ ctx.vqs w with refcnt := (ctx.vqs w).refcnt + n } : Vq C).setup =
        (ctx.vqs w).setup := rfl
    exact field_update Vq.setup ctx.vqs hsame v
  unfold RxContext.assoc
  split
  · rfl
  · rw [hmodify]
    cases old with
    | none => rfl
    | some o => exact hmodify ctx o (-1)

theorem assocTxcVq_refines (h : d.Tidy plat) (txclass vqclass : UInt32) :
    Option.Rel (Holds plat) (d.attempt plat p (.assocTxcVq txclass vqclass))
      (d.setup.assocTxcVq txclass vqclass) := by
  have hmemTxc : txclass ∈ keys TxcSetup.klass d.setup.txcs ↔ _ := h.mem_txcKeys_iff
  have hmemVq : vqclass ∈ keys VqSetup.klass d.setup.vqs ↔ _ := h.mem_vqKeys_iff
  cases hk : d.tx.isoTxcFind plat txclass with
  | none =>
    have hexec : d.exec plat p (.assocTxcVq txclass vqclass) = .ok (-einval, d) := by
      rw [exec, isoSysAssocTxcVq, hk]
      rfl
    rw [hk] at hmemTxc
    have hnew : txclass ∉ keys TxcSetup.klass d.setup.txcs := fun hmem => hmemTxc.mp hmem rfl
    rw [attempt_of_ok hexec, Setup.assocTxcVq, Setup.onTxcs, edit, if_neg hnew,
      Option.map_none, ite_self]
    exact .none
  | some k =>
    have hfind : d.exec plat p (.assocTxcVq txclass vqclass) = .ok
        ((d.toHost.isoSysAssocTxcVq plat txclass vqclass).1,
          { d with toHost := (d.toHost.isoSysAssocTxcVq plat txclass vqclass).2 }) := by
      rw [exec, isoSysAssocTxcVq, hk, h.isoVqFind_eq]
      rfl
    cases hv : d.rx.isoVqFind plat vqclass with
    | none =>
      have hret : (d.toHost.isoSysAssocTxcVq plat txclass vqclass).1 = -einval := by
        rw [Host.isoSysAssocTxcVq, hk, hv]
      rw [hv] at hmemVq
      have hnew : vqclass ∉ keys VqSetup.klass d.setup.vqs := fun hmem => hmemVq.mp hmem rfl
      rw [attempt_of_ok hfind, hret, Setup.assocTxcVq, if_neg hnew]
      exact .none
    | some v =>
      rw [hk] at hmemTxc
      rw [hv] at hmemVq
      let d₁ : Dev C := { d with rx := d.rx.assoc plat (d.tx.txcs k).vq vqclass }
      let d₂ : Dev C := { d₁ with tx := d.tx.modifyTxc k (TxClass.setVq v) }
      have hassoc : d.toHost.isoSysAssocTxcVq plat txclass vqclass = (0, d₂.toHost) := by
        rw [Host.isoSysAssocTxcVq, hk, hv]
        simp only [TxContext.assoc, hk]
        rfl
      rw [hassoc] at hfind
      -- first the reference counts, which the configuration does not have
      have hindex : RxContext.SameIndex d.rx d₁.rx := RxContext.assoc_sameIndex d.rx _ vqclass
      have hvqs : d₁.setup.vqs = d.setup.vqs := by
        show d₁.rx.vqList.map (fun v => (d₁.rx.vqs v).setup) = _
        rw [hindex.vqList, List.map_congr_left fun v _ => assoc_setup d.rx _ vqclass v]
        rfl
      have hmiddle : d₁.Holds plat d.setup :=
        @Tidy.holds_of_vqs C plat d d₁ h rfl rfl (h.vqIndexed.congr hindex rfl rfl)
          (fun v hv => ⟨hindex.vqList.symm ▸ hv, hindex.klass v⟩) _ hvqs h.vqKeys
      -- then the class
      obtain ⟨hv', -⟩ := h.vq_of_find hv
      obtain ⟨hk', honly⟩ := h.txc_of_find hk
      have hklass : (d₁.rx.vqs v).klass = vqclass := by
        rw [hindex.klass]
        simpa using List.find?_some hv
      have hedit : edit TxcSetup.klass txclass
          (fun txc => { txc with assoc := some vqclass }) d₁.setup.txcs =
          some _ := if_pos ((mem_keys_of_perm hmiddle.same.txcs).mpr
            (hmemTxc.mpr (Option.some_ne_none _)))
      have hstep : TxStepped plat p d₁ d₂ := by
        refine ⟨h.txcLoop, Or.inr ⟨.assocTxcVq txclass (some v), ?_⟩⟩
        show _ = d.tx.assoc plat txclass (some v)
        simp only [TxContext.assoc, hk]
        rfl
      have htxcs : d₂.setup.txcs = d₁.setup.txcs.map fun txc =>
          if txc.klass = txclass then { txc with assoc := some vqclass } else txc := by
        show (d.tx.hashed.map fun y =>
          (Function.update d.tx.txcs k ((d.tx.txcs k).setVq v) y).setup d₁.rx) = _
        refine @map_update _ _ _ TxcSetup.klass _ _ _ d.tx.hashed d.tx.txcs
          (TxClass.setup d₁.rx) k _ txclass _ honly ?_
        simp only [TxClass.setup, TxClass.setVq, Option.map_some, hklass]
        rfl
      have hpoints : ∀ y ∈ d₂.tx.hashed, ∀ w, (d₂.tx.txcs y).vq = some w → w ∈ d₁.rx.vqList := by
        intro y hy w hw
        rw [hindex.vqList]
        rcases eq_or_ne y k with rfl | hne
        · simp only [d₂, TxContext.modifyTxc, Function.update_self, TxClass.setVq,
            Option.some.injEq] at hw
          exact hw ▸ hv'
        · simp only [d₂, TxContext.modifyTxc, Function.update_of_ne hne] at hw
          exact h.assoc y hy w hw
      have hholds := @Tidy.holds_of_txcs C plat p d₁ d₂ hmiddle.tidy rfl rfl rfl hstep
        h.txFreed hpoints _ (.of_eq htxcs)
        (by rw [keys_edit hedit fun _ => rfl]; exact hmiddle.tidy.txcKeys)
      have hrel := hmiddle.same.assocTxcVq txclass vqclass
      rw [Setup.assocTxcVq, hvqs, if_pos (hmemVq.mpr (Option.some_ne_none _)), Setup.onTxcs, hedit,
        Option.map_some] at hrel
      rw [attempt_of_ok hfind, if_pos rfl]
      obtain ⟨m, hm, hsame⟩ := some_rel hrel
      rw [hm]
      exact .some ⟨hholds.tidy, hholds.same.trans hsame⟩

/-! ### All commands -/

/-- The operation carries out the command, and has memory for what it creates. -/
inductive Op.Does : Op → Setup.Command → Prop
  | createVq (now : ℕ) {kmalloc : Alloc} (halloc : kmalloc ≠ .fail) (percpu : Bool) (stale : ℤ)
      (klass : UInt32) :
    Does (.createVq now kmalloc percpu stale klass) (.createVq klass)
  | setVqWeight (klass : UInt32) (weight : ℤ) : Does (.setVqWeight klass weight)
      (.setVqWeight klass weight)
  | createTxc (now : ℕ) {kmalloc : Alloc} (halloc : kmalloc ≠ .fail) (rounds : List Bool)
      (klass : UInt32) :
    Does (.createTxc now kmalloc rounds klass) (.createTxc klass)
  | setTxcWeight (klass : UInt32) (weight : ℤ) : Does (.setTxcWeight klass weight)
      (.setTxcWeight klass weight)
  | assocTxcVq (txclass vqclass : UInt32) : Does (.assocTxcVq txclass vqclass)
      (.assocTxcVq txclass vqclass)

/-- A device does what its configuration does. -/
theorem Holds.refines {m : Setup} (h : d.Holds plat m) {op : Op} {c : Setup.Command}
    (hop : op.Does c) :
    Option.Rel (Holds plat) (d.attempt plat p op) (m.exec c) := by
  have hself : Option.Rel (Holds plat) (d.attempt plat p op) (d.setup.exec c) := by
    cases hop with
    | createVq now halloc percpu stale klass =>
      exact createVq_refines h.tidy now halloc percpu stale klass
    | setVqWeight klass weight => exact setVqWeight_refines h.tidy klass weight
    | createTxc now halloc rounds klass => exact createTxc_refines h.tidy now halloc rounds klass
    | setTxcWeight klass weight => exact setTxcWeight_refines h.tidy klass weight
    | assocTxcVq txclass vqclass => exact assocTxcVq_refines h.tidy txclass vqclass
  exact rel_comp hself (h.same.exec c) fun _ _ _ hd hsame => ⟨hd.tidy, hd.same.trans hsame⟩

end Dev

end EyeQ
