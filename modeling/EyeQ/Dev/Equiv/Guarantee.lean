import EyeQ.Dev.Equiv.Registry
import EyeQ.Tx.Equiv.Share

/-!
# The guarantees of a device's classes

Which classes are guaranteed a rate is decided by the hash table, but the rates are computed along
`txc_list`.  As long as no class gets the memory of a deleted one, a device does with its classes
what a `TxContext` does (`step_tx`), every class in the table is on the list, and the guarantees
hold (`runFrom_guaranteed`).  A class in the memory of a deleted one is linked where that one still
was, and the classes behind it are off the list: their rates are not computed any more, and the
guarantees add up to more than the link has (`runFrom_oversubscribed`).
-/

namespace EyeQ

open Machine

variable {C : Type} {plat : Platform} {p : Params}

namespace Dev

variable {d d' : Dev C}

/-- No class gets the memory of a deleted one. -/
def Op.FreshTxc (d : Dev C) : Op → Prop
  | .createTxc _ kmalloc _ _ => ∀ k ∈ d.tx.freed, kmalloc ≠ .again k
  | _ => True

/-- What a command does to the classes: nothing, or what it does to a `TxContext`. -/
def TxStepped (plat : Platform) (p : Params) (d d' : Dev C) : Prop :=
  d'.txcLoop = false ∧ (d'.tx = d.tx ∨ ∃ op, d'.tx = d.tx.step plat p op)

theorem walked_txStepped (hloop : d.txcLoop = false) (ret : ℤ) {tx : TxContext C}
    (htx : tx = d.tx ∨ ∃ op, tx = d.tx.step plat p op) :
    Ends (fun r => TxStepped plat p d r.2) (fun _ => True) (d.walked ret tx) := by
  rw [walked]
  apply Ends.ite
  · exact fun _ => trivial
  · exact fun _ => ⟨hloop, htx⟩

theorem isoTxcMarkInstall_txStepped (hidx : d.tx.Indexed plat) (hloop : d.txcLoop = false) (now : ℕ)
    {kmalloc : Alloc} (hfresh : ∀ k ∈ d.tx.freed, kmalloc ≠ .again k) (rounds : List Bool)
    (klass : UInt32) :
    Ends (fun r => TxStepped plat p d r.2) (fun _ => True)
      (d.isoTxcMarkInstall plat p now kmalloc rounds klass) := by
  rw [isoTxcMarkInstall]
  split
  · rename_i k hfind hk
    -- the memory is fresh, so the class is at the address a `TxContext` would give it
    have hbrk : k = d.tx.brk := by
      cases kmalloc with
      | fail => cases hk
      | fresh => exact (Option.some.inj hk).symm
      | again a =>
        have hmem : a ∉ d.tx.freed := fun hmem => hfresh a hmem rfl
        rw [Alloc.addr, if_neg hmem] at hk
        exact (Option.some.inj hk).symm
    subst hbrk
    have hlist : d.tx.brk ∉ d.tx.txcList := fun hmem =>
      Nat.lt_irrefl _ ((hidx.mem_list_iff _).1 hmem)
    have hfreed : d.tx.brk ∉ d.tx.freed := fun hmem => Nat.lt_irrefl _ (hidx.freed_lt _ hmem)
    have hlast : d.tx.txcList.getLast? ≠ some d.tx.brk := fun hlast =>
      hlist (List.mem_of_getLast? hlast)
    have hstep : (d.tx.step plat p (.createTxc now true rounds klass)) =
        TxContext.isoTxcRecomputeRates p { d.tx with
          txcs := Function.update d.tx.txcs d.tx.brk
            (TxClass.isoTxcPrealloc p now rounds (TxClass.init p now klass))
          brk := d.tx.brk + 1
          isoTxBucket := addHead d.tx.isoTxBucket (classHash plat klass) d.tx.brk
          txcList := d.tx.txcList ++ [d.tx.brk]
          txcTotalWeight := s32 (d.tx.txcTotalWeight +
            (TxClass.isoTxcPrealloc p now rounds (TxClass.init p now klass :
              TxClass C)).weight) } := by
      rw [TxContext.step, TxContext.isoTxcMarkInstall, hfind]
      rfl
    rw [isoTxcAlloc, relinkTail_of_notMem hlist, List.erase_of_not_mem hfreed,
      max_eq_right (Nat.le_succ _)]
    rw [walked]
    apply Ends.ite
    · exact fun _ => trivial
    · exact fun _ => ⟨decide_eq_false hlast, Or.inr ⟨_, hstep.symm⟩⟩
  · exact ⟨hloop, Or.inl rfl⟩

/-- A command on the VQs leaves the classes alone. -/
theorem isoVqInstall_txStepped (hloop : d.txcLoop = false) (now : ℕ) (kmalloc : Alloc)
    (percpu : Bool) (stale : ℤ) (klass : UInt32) :
    Ends (fun r => TxStepped plat p d r.2) (fun _ => True)
      (d.isoVqInstall plat p now kmalloc percpu stale klass) := by
  rw [isoVqInstall]
  apply (ends_true _).bind
  intro found _
  split
  · rw [isoVqAlloc]
    apply Ends.bind (P := TxStepped plat p d)
    · exact (ends_true _).bind fun rx _ => ⟨hloop, Or.inl rfl⟩
    · exact fun _ h => h
  · exact ⟨hloop, Or.inl rfl⟩

theorem onVq_txStepped (hloop : d.txcLoop = false) (klass : UInt32)
    (f : RxContext C → Except Fault (ℤ × RxContext C)) :
    Ends (fun r => TxStepped plat p d r.2) (fun _ => True) (d.onVq plat klass f) := by
  rw [onVq]
  exact (ends_true _).bind fun _ _ => (ends_true _).bind fun _ _ => ⟨hloop, Or.inl rfl⟩

theorem isoSysDeleteVq_txStepped (hloop : d.txcLoop = false) (klass : UInt32) :
    Ends (fun r => TxStepped plat p d r.2) (fun _ => True) (d.isoSysDeleteVq plat klass) := by
  rw [isoSysDeleteVq]
  apply (ends_true _).bind
  intro found _
  split
  · exact ⟨hloop, Or.inl rfl⟩
  · apply Ends.ite
    · exact fun _ => ⟨hloop, Or.inl rfl⟩
    · intro hrefcnt
      rw [isoVqFree, if_neg hrefcnt]
      split_ifs
      · exact ⟨hloop, Or.inl rfl⟩
      · trivial

theorem isoSysDeleteTxc_txStepped (hloop : d.txcLoop = false) (klass : UInt32) :
    Ends (fun r => TxStepped plat p d r.2) (fun _ => True) (d.isoSysDeleteTxc plat p klass) := by
  rw [isoSysDeleteTxc]
  split
  · exact ⟨hloop, Or.inl rfl⟩
  · rename_i k _
    apply (walked_txStepped hloop _ (Or.inr ⟨.deleteTxc klass, rfl⟩)).bind
    rintro ⟨ret, d'⟩ h
    have hrelease : ∀ vq, TxStepped plat p d (d'.release vq) := by
      intro vq
      cases vq <;> exact h
    exact hrelease (d.tx.txcs k).vq

theorem isoSysAssocTxcVq_txStepped (hloop : d.txcLoop = false) (txclass vqclass : UInt32) :
    Ends (fun r => TxStepped plat p d r.2) (fun _ => True)
      (d.isoSysAssocTxcVq plat txclass vqclass) := by
  rw [isoSysAssocTxcVq]
  split
  · exact ⟨hloop, Or.inl rfl⟩
  · rename_i k hk
    apply (ends_true _).bind
    intro _ _
    simp only [Host.isoSysAssocTxcVq, hk]
    cases hv : d.rx.isoVqFind plat vqclass with
    | none => exact ⟨hloop, Or.inl rfl⟩
    | some v => exact ⟨hloop, Or.inr ⟨.assocTxcVq txclass (some v), rfl⟩⟩

theorem isoSysRecomputeDev_txStepped (hloop : d.txcLoop = false) :
    Ends (fun r => TxStepped plat p d r.2) (fun _ => True) (d.isoSysRecomputeDev p) := by
  rw [isoSysRecomputeDev]
  apply (walked_txStepped hloop 0 (Or.inr ⟨.recomputeDev, rfl⟩)).bind
  rintro ⟨ret, d'⟩ h
  exact (ends_true _).bind fun _ _ => h

theorem step_tx (hidx : d.tx.Indexed plat) (hloop : d.txcLoop = false) {op : Op}
    (hop : op.FreshTxc d) : Ends (TxStepped plat p d) (fun _ => True) (step plat p d op) := by
  apply Ends.map
  cases op with
  | createTxc now kmalloc rounds klass =>
    exact isoTxcMarkInstall_txStepped hidx hloop now hop rounds klass
  | createVq now kmalloc percpu stale klass => exact isoVqInstall_txStepped hloop ..
  | assocTxcVq txclass vqclass => exact isoSysAssocTxcVq_txStepped hloop ..
  | setTxcWeight klass weight =>
    exact walked_txStepped hloop _ (Or.inr ⟨.setTxcWeight klass weight, rfl⟩)
  | setTxcRate klass rate => exact walked_txStepped hloop _ (Or.inr ⟨.setTxcRate klass rate, rfl⟩)
  | setVqWeight klass weight => exact onVq_txStepped hloop ..
  | setVqRate klass rate => exact onVq_txStepped hloop ..
  | deleteTxc klass => exact isoSysDeleteTxc_txStepped hloop klass
  | deleteVq klass => exact isoSysDeleteVq_txStepped hloop klass
  | recomputeDev => exact isoSysRecomputeDev_txStepped hloop

/-! ### Runs -/

/-- What every command keeps that creates no class in the memory of a deleted one. -/
structure Shared (plat : Platform) (p : Params) (d : Dev C) : Prop where
  indexed : d.tx.Indexed plat
  loop : d.txcLoop = false
  shares : d.tx.Shares p

theorem Shared.step (h : d.Shared plat p) (hC : 1024 * p.isoMaxTxRate < 2 ^ 31) {op : Op}
    (hop : op.FreshTxc d) (hroom : d.tx.weightSum + 1024 < 2 ^ 31) :
    Ends (Shared plat p) (fun _ => True) (step plat p d op) := by
  apply (step_tx h.indexed h.loop hop).mono _ fun _ h => h
  rintro d' ⟨hloop, htx | ⟨op', htx⟩⟩
  · exact ⟨htx ▸ h.indexed, hloop, htx ▸ h.shares⟩
  · refine ⟨?_, hloop, ?_⟩
    · rw [htx]
      exact h.indexed.step op'
    · rw [htx]
      exact h.shares.step h.indexed hC hroom op'

/-- In a run in which no class is created in the memory of a deleted one, and in which there is
always room for one more weight, the guarantees never oversubscribe the link. -/
theorem runFrom_guaranteed (plat : Platform) {p : Params} (hC : 1024 * p.isoMaxTxRate < 2 ^ 31)
    (statsNow rcpNow : ℕ) {ops : List Op}
    (hops : GuardedE (step plat p) (fun d op => op.FreshTxc d ∧ d.tx.weightSum + 1024 < 2 ^ 31)
      (init p statsNow rcpNow : Dev C) ops)
    (hrun : runFrom C plat p statsNow rcpNow ops = .ok d) : d.tx.Guaranteed p := by
  have hinit : (init p statsNow rcpNow : Dev C).Shared plat p :=
    ⟨TxContext.init_indexed plat p, rfl, TxContext.init_shares p⟩
  have hends : Ends (Shared plat p) (fun _ => True) (runFrom C plat p statsNow rcpNow ops) :=
    hops.ends (fun _ _ hop h => h.step hC hop.1 hop.2) hinit
  exact (hends.of_eq_ok hrun).shares.toGuaranteed

/-- Two classes, of weights three and one. -/
theorem runFrom_guaranteed_twoTxcs :
    ∃ d, runFrom Bool .x86 {} 0 0
        [.createTxc 0 .fresh [] 1, .createTxc 0 .fresh [] 2, .setTxcWeight 1 3] = .ok d ∧
      (d.tx.txcs 0).minRate = 7350 ∧ d.tx.Guaranteed {} := by
  have hrun := eq_ok_endOr (init {} 0 0) (x := runFrom Bool .x86 {} 0 0
    [.createTxc 0 .fresh [] 1, .createTxc 0 .fresh [] 2, .setTxcWeight 1 3]) (by decide +kernel)
  refine ⟨_, hrun, by decide +kernel, runFrom_guaranteed .x86 (by decide) 0 0 ?_ hrun⟩
  refine guardedE_cons (init {} 0 0) ⟨fun _ _ => Alloc.noConfusion, by decide +kernel⟩ ?_
  refine guardedE_cons (init {} 0 0) ⟨fun _ _ => Alloc.noConfusion, by decide +kernel⟩ ?_
  exact guardedE_cons (init {} 0 0) ⟨trivial, by decide +kernel⟩ trivial

/-- Class 3 gets the memory of class 1, and class 2 behind it keeps the whole link. -/
theorem runFrom_oversubscribed :
    ∃ d, runFrom Bool .x86 {} 0 0
        [.createTxc 0 .fresh [] 1, .createTxc 0 .fresh [] 2, .deleteTxc 1,
          .createTxc 0 (.again 0) [] 3] = .ok d ∧
      d.tx.txcTotalWeight = 2 ∧ (d.tx.txcs 0).minRate = 4900 ∧ (d.tx.txcs 1).minRate = 9800 ∧
      ¬ d.tx.Guaranteed {} := by
  have hrun := eq_ok_endOr (init {} 0 0) (x := runFrom Bool .x86 {} 0 0
    [.createTxc 0 .fresh [] 1, .createTxc 0 .fresh [] 2, .deleteTxc 1,
      .createTxc 0 (.again 0) [] 3]) (by decide +kernel)
  refine ⟨_, hrun, by decide +kernel, by decide +kernel, by decide +kernel, fun hguar => ?_⟩
  exact absurd hguar.fits (by decide +kernel)

end Dev

end EyeQ
