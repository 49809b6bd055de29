import EyeQ.Qdisc.Teardown
import EyeQ.Rl.Equiv.Wakeup

/-!
# What a deletion leaves behind

A queue is linked on an active list only while its limiter is worked on, or by the tasklet that
finds its class already linked.  So as long as every deletion finds a class with nothing linked, no
queue of a deleted class is ever linked (`step_live`).

`delete_txc` itself unlinks nothing and disposes of no packet.  Hence it leaves nothing behind
exactly when there is nothing: no queue of the class is linked, and none holds a packet (`Idle`).
-/

namespace EyeQ

open Rl Machine

variable {K D C : Type} [DecidableEq K] [DecidableEq D] [DecidableEq C]

/-! ### Where a queue is linked -/

/-- Every linked queue is of a class in `L`. -/
def LinksIn (L : K → Prop) (s : TxState K D C) : Prop :=
  ∀ c, ∀ x ∈ (s.cb c).activeList, L x.1.klass

section

variable {L : K → Prop} {s s' : TxState K D C}

section

omit [DecidableEq K] [DecidableEq D] [DecidableEq C]

theorem LinksIn.of_sub (h : LinksIn L s)
    (hsub : ∀ c, (s'.cb c).activeList ⊆ (s.cb c).activeList) : LinksIn L s' :=
  fun c x hx => h c x (hsub c hx)

theorem LinksIn.of_same (h : LinksIn L s) (hsched : SameSchedule s s') : LinksIn L s' :=
  h.of_sub fun c => by rw [(hsched c).1]; exact List.Subset.refl _

theorem LinksIn.of_cb (h : LinksIn L s) (hcb : s'.cb = s.cb) : LinksIn L s' :=
  h.of_same (.of_cb hcb)

theorem LinksIn.read (h : LinksIn L s) : LinksIn L s.read := h.of_cb rfl

end

omit [DecidableEq K] [DecidableEq D] in
/-- Work on a control block that leaves its list alone. -/
theorem LinksIn.modifyCb (h : LinksIn L s) (c : C) {f : Cb K D C → Cb K D C}
    (hf : ∀ cb, (f cb).activeList ⊆ cb.activeList) : LinksIn L (s.modifyCb c f) := by
  refine h.of_sub fun c' => ?_
  by_cases hc : c' = c
  · subst hc
    rw [TxState.cb_modifyCb_self]
    exact hf _
  · rw [TxState.cb_modifyCb_of_ne _ _ hc]
    exact List.Subset.refl _

theorem isoRlBorrowTokens_cb (p : Params) (k : Kernel) (r : RlId K D) (c : C)
    (s : TxState K D C) : (isoRlBorrowTokens p k r c s).2.cb = s.cb := by
  rcases isoRlBorrowTokens_cases p k r c s with hfail | ⟨-, hb⟩
  · rw [hfail]
    rfl
  · exact hb.cb

variable [Fintype C] {p : Params} {k : Kernel}

theorem LinksIn.waitForTimer (h : LinksIn L s) {r : RlId K D} (hr : L r.klass) (c : C) :
    LinksIn L (waitForTimer r c s) := by
  have hlink : LinksIn L (linkActive r c s) := by
    unfold linkActive
    split_ifs
    · exact h
    · intro c' x hx
      by_cases hc : c' = c
      · subst hc
        rw [TxState.cb_modifyCb_self] at hx
        rcases List.mem_append.mp hx with hx | hx
        · exact h c' x hx
        · rw [List.mem_singleton.mp hx]
          exact hr
      · rw [TxState.cb_modifyCb_of_ne _ _ hc] at hx
        exact h c' x hx
  unfold Rl.waitForTimer startTimer
  split_ifs
  · exact hlink
  · exact hlink.modifyCb c fun _ => List.Subset.refl _

theorem LinksIn.dequeueWith {unlock : TxState K D C → TxState K D C}
    (hunlock : ∀ s, LinksIn L s → LinksIn L (unlock s)) {r : RlId K D} (hr : L r.klass) (c : C)
    (h : LinksIn L s) : LinksIn L (dequeueWith unlock p k r c s).2 := by
  refine dequeueWith_keeps (P := LinksIn L) (fun s hs _ => ?_) (fun s hs => ?_) hunlock
    (fun s hs => ?_) h
  · exact hs.of_cb (isoRlBorrowTokens_cb ..)
  · exact hs.of_same (dequeueLoop_frame (p := p) (k := k) r c _ 0 s rfl).1
  · exact hs.waitForTimer hr c

/-- Dequeueing links queues of the class that is dequeued. -/
theorem LinksIn.isoRlDequeue (h : LinksIn L s) {r : RlId K D} (hr : L r.klass) (c : C) :
    LinksIn L (isoRlDequeue p k r c s).2 := by
  have hroot : ∀ (t : K) (s : TxState K D C), L t → LinksIn L s →
      LinksIn L (Rl.dequeueWith id p k (.txc t) c s).2 :=
    fun t s ht hs => LinksIn.dequeueWith (r := .txc t) (fun _ h => h) ht c hs
  cases r with
  | txc t => exact hroot t s hr h
  | dest t d =>
    unfold Rl.isoRlDequeue
    exact LinksIn.dequeueWith (fun s hs => hroot t s hr hs) hr c h

omit [Fintype C] in
/-- The cursor of the tasklet is the head of the list or an entry of it. -/
theorem klass_of_next {l : List (RlId K D × C)} (hl : ∀ x ∈ l, L x.1.klass)
    (pos : Option (RlId K D × C)) : ∀ x ∈ Klist.next l pos, L x.1.klass := by
  intro x hx
  cases pos with
  | none => exact hl x (List.mem_of_mem_head? hx)
  | some y =>
    have hmem := List.mem_of_mem_tail (List.mem_of_mem_head? hx)
    exact hl x ((List.dropWhile_sublist _).subset hmem)

/-- The tasklet links queues of the classes it finds linked. -/
theorem LinksIn.taskletLoop (c : C) (first : Option (RlId K D × C)) :
    ∀ (fuel : ℕ) (pos tmp : Option (RlId K D × C)) (count sent : ℕ) (s : TxState K D C),
      (∀ x ∈ pos, L x.1.klass) → (∀ x ∈ tmp, L x.1.klass) → LinksIn L s →
      LinksIn L (taskletLoop p k c first fuel pos tmp count sent s) := by
  intro fuel
  induction fuel with
  | zero => intro pos tmp count sent s _ _ h; exact h
  | succ fuel ih =>
    intro pos tmp count sent s hpos htmp h
    cases pos with
    | none => exact h
    | some x =>
      rw [Rl.taskletLoop]
      split_ifs
      · exact h
      · have hdel : LinksIn L (listDelInit c x s) :=
          h.modifyCb c fun cb => List.erase_subset
        have hclock := hdel.of_cb (cb_isoRlClock p k x.1 (listDelInit c x s))
        have hdequeue := hclock.isoRlDequeue (p := p) (k := k) (hpos x rfl) x.2
        exact ih _ _ _ _ _ htmp (klass_of_next (hdequeue c) tmp) hdequeue

theorem LinksIn.taskletWalk (h : LinksIn L s) (c : C) : LinksIn L (taskletWalk p k c s) := by
  unfold Rl.taskletWalk
  apply LinksIn.taskletLoop
  · intro x hx
    exact h c x (List.mem_of_mem_head? hx)
  · exact klass_of_next (h c) _
  · exact h

theorem LinksIn.isoRlXmitTasklet (h : LinksIn L s) (c : C) :
    LinksIn L (isoRlXmitTasklet p k c s) := by
  have hrun : LinksIn L (s.modifyCb c fun cb => { cb with xmitTimeout := false }) :=
    h.modifyCb c fun _ => List.Subset.refl _
  have hwalk := LinksIn.taskletWalk (p := p) (k := k) (hrun.read) c
  unfold Rl.isoRlXmitTasklet
  dsimp only
  split_ifs
  · exact hrun
  · exact hwalk
  · exact hwalk.modifyCb c fun _ => List.Subset.refl _

/-- Work on the limiters of a class links its queues. -/
theorem LinksIn.isoTx (h : LinksIn L s) {route : Option (K × D)} (hroute : ∀ x ∈ route, L x.1)
    (skb : Skb) (c : C) : LinksIn L (Qdisc.isoTx p k route skb c s).2 := by
  rcases route with - | ⟨t, d⟩
  · exact h
  · have htouch := isoRlEnqueue_touches p k (.dest t d) skb.isoEnableEcn c s
    exact (h.of_cb htouch.cb).isoRlDequeue (r := .dest t d) (hroute (t, d) rfl) c

theorem LinksIn.isoEnqueue (h : LinksIn L s) {route : Option (K × D)} (hroute : ∀ x ∈ route, L x.1)
    (skb : Skb) (c : C) : LinksIn L (Qdisc.isoEnqueue p k route skb c s).2 := by
  have htx : LinksIn L (if p.isoGlobalEnabled then Qdisc.isoTx p k route skb c s
      else (.pass, s)).2 := by
    split_ifs
    · exact h.isoTx hroute skb c
    · exact h
  unfold Qdisc.isoEnqueue
  generalize (if p.isoGlobalEnabled then Qdisc.isoTx p k route skb c s else (.pass, s)) = result
    at htx
  obtain ⟨verdict, s'⟩ := result
  cases verdict with
  | drop => exact htx.of_cb rfl
  | pass => exact htx.of_cb rfl
  | success => exact htx
  | error => exact htx

end

namespace Teardown

variable [Fintype C] {p : Params} {k : Kernel} {s : Teardown K D C}

/-! ### Deletions -/

/-- No queue of the class is linked, and none holds a packet. -/
def Idle (s : TxState K D C) (t : K) : Prop :=
  LinksIn (· ≠ t) s ∧ ∀ r c, r.klass = t → (s.q r c).list = []

/-- A deletion finds the class idle. -/
def FindsIdle (s : Teardown K D C) : Op K D C → Prop
  | .work _ => True
  | .deleteTxc t => t ∉ s.deleted → Idle s.tx t

/-- The packet is transmitted or freed between the two states. -/
def Disposed (s s' : TxState K D C) (pkt : Skb) : Prop :=
  ∃ evs, s'.trace = s.trace ++ evs ∧
    ((∃ c, Event.xmit c pkt ∈ evs) ∨ ∃ why, Event.kfree why pkt ∈ evs)

/-- The class `t` is deleted by the operation. -/
def Deletes (s : Teardown K D C) (t : K) : Op K D C → Prop
  | .work _ => False
  | .deleteTxc t' => t' = t ∧ t ∉ s.deleted

/-- The operation leaves nothing of a deleted class: no linked queue belongs to one, and of a class
that it deletes, every packet has been transmitted or freed. -/
def LeavesNothing (p : Params) (k : Kernel) (s : Teardown K D C) (op : Op K D C) : Prop :=
  LinksIn (· ∉ (step p k s op).deleted) (step p k s op).tx ∧
    ∀ t, Deletes s t op → ∀ r c, r.klass = t → ∀ pkt ∈ (s.tx.q r c).list,
      Disposed s.tx (step p k s op).tx pkt

/-- While the context is at work, queues are linked of classes that are there. -/
theorem step_work_links (h : LinksIn (· ∉ s.deleted) s.tx) (op : Qdisc.Op K D C) :
    LinksIn (· ∉ s.deleted) (step p k s (.work op)).tx := by
  cases op with
  | enqueue route c skb =>
    refine h.isoEnqueue (fun x hx => ?_) skb c
    simpa using (Option.mem_filter_iff.mp hx).2
  | dequeue r c =>
    unfold step live
    dsimp only
    split_ifs with hr
    · exact h
    · exact h.isoRlDequeue hr c
  | feedback t d rate =>
    unfold step live
    dsimp only
    split_ifs
    · exact h
    · exact h.of_cb rfl
  | classRate t rate =>
    unfold step live
    dsimp only
    split_ifs
    · exact h
    · exact h.of_cb rfl
  | timeout c =>
    show LinksIn _ (isoRlTimeout c s.tx)
    unfold isoRlTimeout
    split_ifs
    · exact h.modifyCb c fun _ => List.Subset.refl _
    · exact h
  | tasklet c => exact h.isoRlXmitTasklet c

theorem deleted_step_work (op : Qdisc.Op K D C) : (step p k s (.work op)).deleted = s.deleted := by
  unfold step
  dsimp only
  cases live s.deleted op <;> rfl

omit [DecidableEq K] [DecidableEq D] [DecidableEq C] [Fintype C] in
/-- Nothing is disposed of when nothing happens. -/
theorem not_disposed (s : TxState K D C) (pkt : Skb) : ¬ Disposed s s pkt := by
  rintro ⟨evs, htrace, h⟩
  obtain rfl : evs = [] := by simpa using htrace
  simp at h

/-- An operation leaves nothing exactly when a class that it deletes is idle. -/
theorem leavesNothing_iff (h : LinksIn (· ∉ s.deleted) s.tx) (op : Op K D C) :
    LeavesNothing p k s op ↔ FindsIdle s op := by
  cases op with
  | work op =>
    refine iff_of_true ⟨?_, fun t ht => absurd ht id⟩ trivial
    rw [deleted_step_work]
    exact step_work_links h op
  | deleteTxc t =>
    by_cases ht : t ∈ s.deleted
    · have hsame : step p k s (.deleteTxc t) = s := if_pos ht
      refine iff_of_true ?_ fun hnot => absurd ht hnot
      unfold LeavesNothing
      rw [hsame]
      exact ⟨h, fun t' ht' => absurd (ht'.1 ▸ ht) ht'.2⟩
    · have hstep : step p k s (.deleteTxc t) = { s with deleted := t :: s.deleted } := if_neg ht
      unfold LeavesNothing
      rw [hstep]
      constructor
      · rintro ⟨hlinks, hpackets⟩ -
        refine ⟨fun c x hx => ?_, fun r c hr => ?_⟩
        · exact fun hxt => hlinks c x hx (hxt ▸ List.mem_cons_self)
        · -- the deletion disposes of nothing, so there was nothing
          refine List.eq_nil_iff_forall_not_mem.mpr fun pkt hpkt => ?_
          exact not_disposed s.tx pkt (hpackets t ⟨rfl, ht⟩ r c hr pkt hpkt)
      · intro hidle
        obtain ⟨hlinks, hempty⟩ := hidle ht
        refine ⟨fun c x hx => ?_, fun t' ht' r c hr pkt hpkt => ?_⟩
        · exact fun hmem => (List.mem_cons.mp hmem).elim (hlinks c x hx) (h c x hx)
        · rw [hempty r c (hr.trans ht'.1.symm)] at hpkt
          exact absurd hpkt List.not_mem_nil

/-- In a run, whatever packets are processed in between, nothing of a deleted class is linked at any
time, and the packets of a deleted class have been transmitted or freed, exactly if every deletion
finds the class idle. -/
theorem leavesNothing_iff_findsIdle (p : Params) (k : Kernel) (t : RlId K D → ℕ)
    (ops : List (Op K D C)) :
    Guarded (step p k) (LeavesNothing p k) (init p t) ops ↔
      Guarded (step p k) FindsIdle (init p t) ops := by
  have hinit : LinksIn (· ∉ (init p t : Teardown K D C).deleted) (init p t : Teardown K D C).tx :=
    fun c x hx => absurd hx List.not_mem_nil
  refine guarded_congr (fun s => LinksIn (· ∉ s.deleted) s.tx) (fun s op h hop => ?_)
    (fun s op h => leavesNothing_iff h op) hinit ops
  exact ((leavesNothing_iff (p := p) (k := k) h op).mpr hop).1

/-- A kernel whose clock stands still, so that no limiter ever has a token. -/
def stoppedKernel : Kernel where
  ktime _ := 0
  ktime_mono := Kernel.monotone_stopped
  trylock _ := true
  skbGsoSegment _ := none

/-- A packet is queued, and its class is deleted. -/
def deletedBacklog : List (Op Unit Unit Unit) :=
  [.work (.enqueue (some ((), ())) () (.datagram 1 1000 1 2 6 0 0)), .deleteTxc ()]

/-- The packet is still in the queue of the destination, and the queue on the active list. -/
theorem not_leavesNothing_deletedBacklog :
    ¬ Guarded (step {} stoppedKernel) (LeavesNothing {} stoppedKernel) (init {} fun _ => 0)
      deletedBacklog := by
  rintro ⟨-, ⟨hlinks, -⟩, -⟩
  have hlinked : (RlId.dest () (), ()) ∈ ((step {} stoppedKernel (step {} stoppedKernel
      (init {} fun _ => 0) deletedBacklog[0]) (.deleteTxc ())).tx.cb ()).activeList := by
    decide +kernel
  exact absurd (hlinks () _ hlinked) (by decide +kernel)

end Teardown

end EyeQ
