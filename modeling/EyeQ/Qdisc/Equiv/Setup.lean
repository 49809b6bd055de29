import EyeQ.Machine.Fallible
import EyeQ.Qdisc.Setup

/-!
# What is left of a qdisc that could not be set up

`mq_destroy` goes by the pointers `txc` and `rxc`.  They say that a context has been allocated,
which is not that `iso_tx_init` or `iso_rx_init` has returned `0`: both contexts are allocated
before either function is called.  So if the allocation of the rx context fails, or something inside
of the two functions, an exit function is called for a context that is not set up (`Premature`).
Most often its list node is still `NULL`, and taking it off the list faults.  If only the
registration of the receive handler fails, because the device has one, nothing faults, and
`iso_rx_exit` removes the handler of somebody else.

What fails before the contexts are allocated and what fails behind `iso_rx_init`, the creation of
any of the children, is taken back exactly (`Unwound`).
-/

namespace EyeQ

open Machine

/-- The failures that `mq_init` can take back: those before there is a context, and those after both
are set up. -/
def MqEnv.Unwindable (env : MqEnv) (dev : NetDev) : Prop :=
  env.root = false ∨ env.qdiscs = false ∨ env.txc = none ∨
    env.rxc ≠ none ∧ env.rlcb = true ∧ dev.netdevOps = true ∧ env.stats = true ∧
    dev.rxHandler = none

namespace MqSched

variable {env : MqEnv} {dev : NetDev} {txctxList rxctxList : List ℕ} {a b : ℕ} {s : MqSched}

/-- What has been done since `s` has been taken back. -/
structure Unwound (s s' : MqSched) : Prop where
  tx : .tx ∈ s'.exited → .tx ∈ s'.completed
  rx : .rx ∈ s'.exited → .rx ∈ s'.completed
  children : s'.destroyed = s'.created
  blocks : ∀ b, s'.freed.count b = if b ∈ s'.allocated then 1 else 0
  txctxList : s'.txctxList = s.txctxList
  rxctxList : s'.rxctxList = s.rxctxList

/-- A call of `mq_init` that fails takes back what it has done. -/
def Unwinds (env : MqEnv) (s : MqSched) : Prop :=
  Ends (fun r => r.1 ≠ 0 → Unwound s r.2) (fun _ => False) (mqInit env s)

/-- An exit function has been called for a context that is not set up. -/
def Premature (s : MqSched) : Prop := ∃ x ∈ s.exited, x ∉ s.completed

theorem Premature.not_unwound {s' : MqSched} (h : s'.Premature) : ¬ Unwound s s' := by
  obtain ⟨x, hmem, hnot⟩ := h
  intro hs
  cases x with
  | tx => exact hnot (hs.tx hmem)
  | rx => exact hnot (hs.rx hmem)

theorem not_unwinds_of_premature {x : Outcome (ℤ × MqSched)}
    (h : Ends (fun r => r.1 ≠ 0 ∧ r.2.Premature) (fun e => e.2.Premature) x) :
    ¬ Ends (fun r => r.1 ≠ 0 → Unwound s r.2) (fun _ => False) x := by
  cases x with
  | ok r => exact fun hr => h.2.not_unwound (hr h.1)
  | error e => exact id

/-! ### The children -/

/-- The children of the first `m` queues have been created. -/
def withChildren (m : ℕ) (s : MqSched) : MqSched :=
  { s with qdiscs := some fun i => decide (i < m), created := List.range m }

theorem withChildren_zero (hqdiscs : s.qdiscs = some fun _ => false) (hcreated : s.created = []) :
    withChildren 0 s = s := by
  cases s
  simp_all [withChildren]

theorem update_decide_lt (ntx : ℕ) :
    Function.update (fun i => decide (i < ntx)) ntx true = fun i => decide (i < ntx + 1) := by
  funext i
  by_cases hi : i = ntx
  · subst hi
    simp
  · rw [Function.update_of_ne hi]
    exact decide_eq_decide.mpr (by omega)

/-- The loop creates the children of the queues up to some `m`, and has come to its end if these are
all. -/
theorem createChildren_eq (env : MqEnv) (s : MqSched) (left ntx : ℕ) :
    ∃ m, ntx ≤ m ∧ m ≤ ntx + left ∧
      createChildren env left ntx (withChildren ntx s) =
      (decide (m = ntx + left), withChildren m s) := by
  induction left generalizing ntx with
  | zero => exact ⟨ntx, Nat.le_refl _, Nat.le_refl _, by simp [createChildren]⟩
  | succ left ih =>
    unfold createChildren
    split_ifs with hchild
    · obtain ⟨m, hle, hlt, heq⟩ := ih (ntx + 1)
      refine ⟨m, by omega, by omega, ?_⟩
      rw [withChildren, List.range_succ, ← update_decide_lt] at heq
      refine Eq.trans heq (Prod.ext ?_ rfl)
      exact decide_eq_decide.mpr (by omega)
    · exact ⟨ntx, Nat.le_refl _, by omega, by simp⟩

/-- The loop of `mq_destroy` finds the children that have been created. -/
theorem destroyChildren_eq (m : ℕ) {left ntx : ℕ} (hle : ntx ≤ m) (hlt : m ≤ ntx + left) :
    destroyChildren (fun i => decide (i < m)) left ntx = List.range' ntx (m - ntx) := by
  induction left generalizing ntx with
  | zero =>
    obtain rfl : m = ntx := by omega
    rw [Nat.sub_self]
    rfl
  | succ left ih =>
    unfold destroyChildren
    by_cases hm : ntx < m
    · have hsub : m - ntx = m - (ntx + 1) + 1 := by omega
      rw [if_pos (decide_eq_true hm), ih (by omega) (by omega), hsub, List.range'_succ]
    · obtain rfl : m = ntx := by omega
      rw [if_neg (by simp), Nat.sub_self]
      rfl

theorem destroyChildren_null (left ntx : ℕ) : destroyChildren (fun _ => false) left ntx = [] := by
  cases left with
  | zero => rfl
  | succ left => rfl

/-! ### The way through `mq_init` -/

/-- Both contexts have been allocated, and neither is set up. -/
def contexts (dev : NetDev) (txctxList rxctxList : List ℕ) (a b : ℕ) : MqSched where
  dev := dev
  txctxList := txctxList
  rxctxList := rxctxList
  qdiscs := some fun _ => false
  txc := some { addr := a, netdev := true }
  rxc := some { addr := b, netdev := true }
  allocated := [.rxc, .txc, .qdiscs]

/-- Both contexts are set up. -/
def ready (dev : NetDev) (txctxList rxctxList : List ℕ) (a b : ℕ) : MqSched where
  dev := { dev with gsoMaxSize := isoGsoMaxSize, rxHandler := some .iso }
  txctxList := txctxList ++ [a]
  rxctxList := rxctxList ++ [b]
  qdiscs := some fun _ => false
  txc := some { addr := a, netdev := true, list := .linked, rlcb := true,
                prevIsoGsoMaxSize := dev.gsoMaxSize }
  rxc := some { addr := b, netdev := true, list := .linked, stats := true, vqList := .self }
  allocated := [.stats, .rlcb, .rxc, .txc, .qdiscs]
  completed := [.rx, .tx]

theorem mqInit_of_contexts (hroot : env.root = true) (hqdiscs : env.qdiscs = true)
    (htxc : env.txc = some a) (hrxc : env.rxc = some b) :
    mqInit env (start dev txctxList rxctxList) =
      initContexts env { addr := a, netdev := true } { addr := b, netdev := true }
        (contexts dev txctxList rxctxList a b) := by
  rw [mqInit, if_neg (not_not_intro hroot), if_neg (not_not_intro hqdiscs), htxc, hrxc]
  rfl

/-- An exit function is called too early if one of the contexts cannot be set up. -/
theorem initContexts_premature (h : ¬ (env.rlcb = true ∧ dev.netdevOps = true ∧ env.stats = true ∧
    dev.rxHandler = none)) :
    Ends (fun r => r.1 ≠ 0 ∧ r.2.Premature) (fun e => e.2.Premature)
      (initContexts env { addr := a, netdev := true } { addr := b, netdev := true }
        (contexts dev txctxList rxctxList a b)) := by
  obtain ⟨numTxQueues, gsoMaxSize, netdevOps, rxHandler⟩ := dev
  unfold initContexts isoTxInit isoRxInit
  cases hrlcb : env.rlcb with
  | false => exact ⟨.tx, List.mem_cons_self, List.not_mem_nil⟩
  | true =>
    cases netdevOps with
    | false => exact ⟨.rx, List.mem_cons_self, List.not_mem_nil⟩
    | true =>
      cases hstats : env.stats with
      | false => exact ⟨.rx, List.mem_cons_self, show Direction.rx ∉ [.tx] by decide⟩
      | true =>
        cases rxHandler with
        | none => exact absurd ⟨hrlcb, rfl, hstats, rfl⟩ h
        | some handler =>
          -- nothing faults, and the exit function runs to its end
          exact ⟨show -enomem ≠ 0 by decide, .rx, List.mem_cons_self,
            show Direction.rx ∉ [.tx] by decide⟩

theorem initContexts_ready (hrlcb : env.rlcb = true) (hops : dev.netdevOps = true)
    (hstats : env.stats = true) (hhandler : dev.rxHandler = none) :
    initContexts env { addr := a, netdev := true } { addr := b, netdev := true }
        (contexts dev txctxList rxctxList a b) =
      let r := createChildren env dev.numTxQueues 0 (ready dev txctxList rxctxList a b)
      if r.1 then .ok (0, r.2) else r.2.fail := by
  obtain ⟨numTxQueues, gsoMaxSize, netdevOps, rxHandler⟩ := dev
  obtain rfl : netdevOps = true := hops
  obtain rfl : rxHandler = none := hhandler
  unfold initContexts isoTxInit isoRxInit
  rw [hrlcb, hstats]
  rfl

/-- What `mq_destroy` does when both contexts are set up and the first `m` children have been
created. -/
theorem mqDestroy_ready (dev : NetDev) (htx : a ∉ txctxList) (hrx : b ∉ rxctxList) {m : ℕ}
    (hm : m ≤ dev.numTxQueues) :
    ∃ s, mqDestroy (withChildren m (ready dev txctxList rxctxList a b)) = .ok s ∧
      Unwound (start dev txctxList rxctxList) s := by
  refine ⟨_, rfl, ⟨fun _ => ?_, fun _ => ?_, ?_, fun block => ?_, ?_, ?_⟩⟩
  · exact List.mem_cons_of_mem _ List.mem_cons_self
  · exact List.mem_cons_self
  · show [] ++ destroyChildren (fun i => decide (i < m)) dev.numTxQueues 0 = List.range m
    rw [destroyChildren_eq m (Nat.zero_le m) (by omega), Nat.sub_zero, List.nil_append,
      List.range_eq_range']
  · cases block with
    | qdiscs => rfl
    | txc => rfl
    | rxc => rfl
    | rlcb => rfl
    | stats => rfl
  · show (txctxList ++ [a]).erase a = txctxList
    rw [List.erase_append_right _ htx, List.erase_cons_head, List.append_nil]
  · show (rxctxList ++ [b]).erase b = rxctxList
    rw [List.erase_append_right _ hrx, List.erase_cons_head, List.append_nil]

/-- Behind `iso_rx_init` only the creation of a child can fail. -/
theorem initContexts_unwinds (htx : a ∉ txctxList) (hrx : b ∉ rxctxList)
    (h : env.rlcb = true ∧ dev.netdevOps = true ∧ env.stats = true ∧ dev.rxHandler = none) :
    Ends (fun r => r.1 ≠ 0 → Unwound (start dev txctxList rxctxList) r.2) (fun _ => False)
      (initContexts env { addr := a, netdev := true } { addr := b, netdev := true }
        (contexts dev txctxList rxctxList a b)) := by
  obtain ⟨hrlcb, hops, hstats, hhandler⟩ := h
  obtain ⟨m, -, hm, hcreate⟩ := createChildren_eq env
    (ready dev txctxList rxctxList a b) dev.numTxQueues 0
  rw [withChildren_zero rfl rfl] at hcreate
  rw [initContexts_ready hrlcb hops hstats hhandler, hcreate]
  dsimp only
  split_ifs with hall
  · exact fun hne => absurd rfl hne
  · obtain ⟨s, hs, hunwound⟩ := mqDestroy_ready dev htx hrx (m := m) (by omega)
    rw [fail, hs]
    exact fun _ => hunwound

/-! ### Failures -/

/-- `mq_init` takes back what it has done exactly if nothing fails between the allocation of the
first context and the creation of the first child. -/
theorem mqInit_unwinds_iff (env : MqEnv) (dev : NetDev) (txctxList rxctxList : List ℕ)
    (htx : ∀ a, env.txc = some a → a ∉ txctxList) (hrx : ∀ b, env.rxc = some b → b ∉ rxctxList) :
    Unwinds env (start dev txctxList rxctxList) ↔ env.Unwindable dev := by
  unfold Unwinds
  cases hroot : env.root with
  | false =>
    rw [mqInit, hroot]
    exact iff_of_true (fun _ => ⟨nofun, nofun, rfl, fun _ => rfl, rfl, rfl⟩) (Or.inl hroot)
  | true =>
    cases hqdiscs : env.qdiscs with
    | false =>
      rw [mqInit, hroot, hqdiscs]
      exact iff_of_true (fun _ => ⟨nofun, nofun, rfl, fun _ => rfl, rfl, rfl⟩)
        (Or.inr (Or.inl hqdiscs))
    | true =>
      cases htxc : env.txc with
      | none =>
        rw [mqInit, hroot, hqdiscs, htxc]
        refine iff_of_true (fun _ => ⟨nofun, nofun, ?_, fun block => ?_, rfl, rfl⟩)
          (Or.inr (Or.inr (Or.inl htxc)))
        · exact destroyChildren_null dev.numTxQueues 0
        · cases block with
          | qdiscs => rfl
          | txc => rfl
          | rxc => rfl
          | rlcb => rfl
          | stats => rfl
      | some a =>
        cases hrxc : env.rxc with
        | none =>
          -- `iso_tx_exit` of a context that nobody has touched
          rw [mqInit, hroot, hqdiscs, htxc, hrxc]
          refine iff_of_false id ?_
          rintro (h | h | h | ⟨h, -⟩)
          · exact nomatch hroot.symm.trans h
          · exact nomatch hqdiscs.symm.trans h
          · exact nomatch htxc.symm.trans h
          · exact h hrxc
        | some b =>
          rw [mqInit_of_contexts hroot hqdiscs htxc hrxc]
          by_cases hready : env.rlcb = true ∧ dev.netdevOps = true ∧ env.stats = true ∧
            dev.rxHandler = none
          · refine iff_of_true ?_ (Or.inr
              (Or.inr (Or.inr ⟨(fun h => nomatch hrxc.symm.trans h), hready⟩)))
            exact initContexts_unwinds (htx a htxc) (hrx b hrxc) hready
          · refine iff_of_false (not_unwinds_of_premature (initContexts_premature hready)) ?_
            rintro (h | h | h | ⟨-, h⟩)
            · exact nomatch hroot.symm.trans h
            · exact nomatch hqdiscs.symm.trans h
            · exact nomatch htxc.symm.trans h
            · exact hready h

/-- A device with three tx queues, and the third child cannot be created: the two others are
destroyed. -/
theorem mqInit_unwinds_thirdChild :
    ∃ s, mqInit ⟨true, true, some 8, some 9, true, true, fun i => decide (i < 2)⟩
        (start ⟨3, 65536, true, none⟩ [4] [5]) = .ok (-enomem, s) ∧
      s.destroyed = [0, 1] ∧ Unwound (start ⟨3, 65536, true, none⟩ [4] [5]) s := by
  have hunwinds := (mqInit_unwinds_iff ⟨true, true, some 8, some 9, true, true,
    fun i => decide (i < 2)⟩ ⟨3, 65536, true, none⟩ [4] [5] (by decide) (by decide)).mpr
      (Or.inr (Or.inr (Or.inr (by decide))))
  exact ⟨_, rfl, rfl, hunwinds (show -enomem ≠ 0 by decide)⟩

/-- On a port of a bridge `iso_rx_init` fails, `iso_rx_exit` is called, and the handler of the
bridge is gone.  And if there is no memory for the rx context, `iso_tx_exit` is called and
faults. -/
theorem mqInit_not_unwinds :
    (∃ s, mqInit ⟨true, true, some 8, some 9, true, true, fun _ => true⟩
        (start ⟨1, 65536, true, some .other⟩ [] []) = .ok (-enomem, s) ∧
      .rx ∈ s.exited ∧ .rx ∉ s.completed ∧ s.dev.rxHandler = none) ∧
    ¬ Unwinds ⟨true, true, some 8, some 9, true, true, fun _ => true⟩
      (start ⟨1, 65536, true, some .other⟩ [] []) ∧
    (∃ s, mqInit ⟨true, true, some 8, none, true, true, fun _ => true⟩
        (start ⟨1, 65536, true, none⟩ [] []) = .error (.wild, s) ∧
      .tx ∈ s.exited ∧ .tx ∉ s.completed) ∧
    ¬ Unwinds ⟨true, true, some 8, none, true, true, fun _ => true⟩
      (start ⟨1, 65536, true, none⟩ [] []) := by
  refine ⟨⟨_, rfl, by decide, by decide, rfl⟩, fun h => ?_, ⟨_, rfl, by decide, by decide⟩, id⟩
  have hrx := (h (show -enomem ≠ 0 by decide)).rx (by decide)
  exact absurd hrx (by decide)

end MqSched

end EyeQ
