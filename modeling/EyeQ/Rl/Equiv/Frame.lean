import EyeQ.Rl.Equiv.Wakeup

/-!
# Limiters that a run does not touch

An operation works on the limiters it names, on the class-level limiters that those feed, and on the
limiters of the queues that are linked on an active list.  It does not look at any other limiter,
and of these it does not look at the address.

`s.overlay m` is the state `s` with the limiter `r` replaced by `m r` of it.  For each function of
`rl.c`: if `m` changes nothing but addresses in a region `A` and the function stays in the region,
it makes no difference whether `m` is applied before the call or after it.
-/

namespace EyeQ

variable {K D C : Type}

namespace TxState

/-- Each limiter is replaced by `m` of it. -/
def overlay (m : RlId K D → Rl C → Rl C) (s : TxState K D C) : TxState K D C :=
  { s with rl := fun r => m r (s.rl r) }

section

variable (m : RlId K D → Rl C → Rl C) (s : TxState K D C)

@[simp] theorem cb_overlay : (s.overlay m).cb = s.cb := rfl

@[simp] theorem reads_overlay : (s.overlay m).reads = s.reads := rfl

@[simp] theorem tries_overlay : (s.overlay m).tries = s.tries := rfl

theorem overlay_overlay (m' : RlId K D → Rl C → Rl C) :
    (s.overlay m).overlay m' = s.overlay fun r l => m' r (m r l) := rfl

variable {m} in
theorem overlay_congr {m' : RlId K D → Rl C → Rl C} (h : ∀ r, m r (s.rl r) = m' r (s.rl r)) :
    s.overlay m = s.overlay m' := by
  unfold overlay
  rw [funext h]

@[simp] theorem log_overlay (e : Rl.Event K D C) : (s.overlay m).log e = (s.log e).overlay m := rfl

@[simp] theorem read_overlay : (s.overlay m).read = s.read.overlay m := rfl

@[simp] theorem tryLock_overlay : (s.overlay m).tryLock = s.tryLock.overlay m := rfl

@[simp] theorem modifyCb_overlay [DecidableEq C] (c : C) (f : Rl.Cb K D C → Rl.Cb K D C) :
    (s.overlay m).modifyCb c f = (s.modifyCb c f).overlay m := rfl

end

end TxState

namespace Rl

open Machine

/-- At `r`, nothing but the address changes. -/
def Transparent (m : RlId K D → Rl C → Rl C) (r : RlId K D) : Prop :=
  ∃ g : UInt32 → UInt32, ∀ l, m r l = { l with ip := g l.ip }

section Access

variable {m : RlId K D → Rl C → Rl C} {r : RlId K D}

theorem Transparent.q (h : Transparent m r) (s : TxState K D C) (c : C) :
    (s.overlay m).q r c = s.q r c := by
  obtain ⟨g, hg⟩ := h
  show (m r (s.rl r)).queue c = _
  rw [hg]
  rfl

theorem Transparent.rate (h : Transparent m r) (s : TxState K D C) :
    ((s.overlay m).rl r).rate = (s.rl r).rate := by
  obtain ⟨g, hg⟩ := h
  show (m r (s.rl r)).rate = _
  rw [hg]

theorem Transparent.totalTokens (h : Transparent m r) (s : TxState K D C) :
    ((s.overlay m).rl r).totalTokens = (s.rl r).totalTokens := by
  obtain ⟨g, hg⟩ := h
  show (m r (s.rl r)).totalTokens = _
  rw [hg]

theorem Transparent.lastUpdateTime (h : Transparent m r) (s : TxState K D C) :
    ((s.overlay m).rl r).lastUpdateTime = (s.rl r).lastUpdateTime := by
  obtain ⟨g, hg⟩ := h
  show (m r (s.rl r)).lastUpdateTime = _
  rw [hg]

variable [DecidableEq K] [DecidableEq D]

/-- Work on a limiter that leaves its address alone. -/
theorem Transparent.modifyRl (h : Transparent m r) {f : Rl C → Rl C}
    (hf : ∀ (l : Rl C) (ip : UInt32), f { l with ip := ip } = { f l with ip := ip })
    (hip : ∀ l, (f l).ip = l.ip) (s : TxState K D C) :
    (s.overlay m).modifyRl r f = (s.modifyRl r f).overlay m := by
  obtain ⟨g, hg⟩ := h
  unfold TxState.modifyRl TxState.overlay
  simp only [TxState.mk.injEq, and_true]
  funext r'
  by_cases hr : r' = r
  · subst hr
    rw [Function.update_self, Function.update_self, hg, hg, hf, hip]
  · rw [Function.update_of_ne hr, Function.update_of_ne hr]

variable [DecidableEq C]

theorem Transparent.modifyQ (h : Transparent m r) (c : C) (f : Queue → Queue) (s : TxState K D C) :
    (s.overlay m).modifyQ r c f = (s.modifyQ r c f).overlay m := by
  refine h.modifyRl (fun l ip => ?_) (fun l => ?_) s
  all_goals rfl

end Access

variable [DecidableEq K] [DecidableEq D] [DecidableEq C]

/-! ### The functions of `rl.c` -/

section Functions

variable {m : RlId K D → Rl C → Rl C} {r : RlId K D} {p : Params} {k : Kernel} {c : C}

omit [DecidableEq C] in
theorem isoRlClock_overlay (h : Transparent m r) (s : TxState K D C) :
    isoRlClock p k r (s.overlay m) = (isoRlClock p k r s).overlay m := by
  have hrefill : ∀ now,
      (s.read.overlay m).modifyRl r (refill p now) =
      (s.read.modifyRl r (refill p now)).overlay m := by
    intro now
    refine h.modifyRl (fun l ip => ?_) (fun l => ?_) s.read
    all_goals rfl
  unfold isoRlClock
  simp only [h.lastUpdateTime, TxState.reads_overlay, TxState.read_overlay, hrefill,
    apply_ite (TxState.overlay m)]

theorem appendWhole_overlay (h : Transparent m r) (pkt : Skb) (s : TxState K D C) :
    appendWhole p r c pkt (s.overlay m) = (appendWhole p r c pkt s).overlay m := by
  have htail : ∀ pkt, queueTail r c pkt (s.overlay m) = (queueTail r c pkt s).overlay m :=
    fun pkt => h.modifyQ c _ s
  unfold appendWhole
  rw [h.q]
  cases r with
  | txc t =>
    dsimp only
    split_ifs
    · exact htail _
    · exact htail _
  | dest t d => exact htail _

theorem appendSegments_overlay (h : Transparent m r) (segs : List Skb) (s : TxState K D C) :
    segs.foldl (appendSegment p r c) (s.overlay m) =
    (segs.foldl (appendSegment p r c) s).overlay m := by
  induction segs generalizing s with
  | nil => rfl
  | cons skb segs ih =>
    have hone : appendSegment p r c (s.overlay m) skb = (appendSegment p r c s skb).overlay m := by
      unfold appendSegment
      rw [h.q]
      split_ifs
      · exact h.modifyQ c _ s
      · rfl
    rw [List.foldl_cons, hone, ih, List.foldl_cons]

theorem isoRlEnqueue_overlay (h : Transparent m r) (pkt : Skb) (s : TxState K D C) :
    isoRlEnqueue p k r pkt c (s.overlay m) = Prod.map id (TxState.overlay m)
      (isoRlEnqueue p k r pkt c s) := by
  unfold isoRlEnqueue
  rw [isoRlClock_overlay h]
  generalize isoRlClock p k r s = s
  simp only [h.q, h.rate, TxState.log_overlay, appendWhole_overlay h, appendSegments_overlay h]
  split_ifs
  · rfl
  · rfl
  · rfl
  · cases k.skbGsoSegment pkt with
    | none => rfl
    | some segs => rfl

theorem isoRlBorrowTokens_overlay (h : Transparent m r) (s : TxState K D C) :
    isoRlBorrowTokens p k r c (s.overlay m) = Prod.map id (TxState.overlay m)
      (isoRlBorrowTokens p k r c s) := by
  have hpool : ∀ borrow, (s.tryLock.overlay m).modifyRl r (fun l =>
      { l with totalTokens := sub64 l.totalTokens borrow }) = (s.tryLock.modifyRl r fun l =>
        { l with totalTokens := sub64 l.totalTokens borrow }).overlay m := by
    intro borrow
    refine h.modifyRl (fun l ip => ?_) (fun l => ?_) s.tryLock
    all_goals rfl
  unfold isoRlBorrowTokens
  simp only [h.totalTokens, TxState.tries_overlay, TxState.tryLock_overlay, hpool, h.modifyQ,
    ge_iff_le, le_refl, ↓reduceIte]
  split_ifs <;> rfl

theorem peek_overlay (h : Transparent m r) (pkt : Skb) (s : TxState K D C) :
    peek r c pkt (s.overlay m) = (peek r c pkt s).overlay m := by
  unfold peek
  rw [h.modifyQ, TxState.log_overlay]

theorem charge_overlay (h : Transparent m r) (size : ℕ) (s : TxState K D C) :
    charge r c size (s.overlay m) = (charge r c size s).overlay m := by
  unfold charge
  rw [h.q, TxState.log_overlay, h.modifyQ]

/-- The queue that the limiter feeds is in the clear as well. -/
def Clear (m : RlId K D → Rl C → Rl C) : RlId K D → Prop
  | .txc t => Transparent m (.txc t)
  | .dest t d => Transparent m (.dest t d) ∧ Transparent m (.txc t)

omit [DecidableEq K] [DecidableEq D] [DecidableEq C] in
theorem Clear.self (h : Clear m r) : Transparent m r := by
  cases r with
  | txc t => exact h
  | dest t d => exact h.1

theorem forward_overlay (h : Clear m r) (pkt : Skb) (s : TxState K D C) :
    forward p k r c pkt (s.overlay m) = (forward p k r c pkt s).map (TxState.overlay m) := by
  have hdequeue : skbDequeue r c (s.overlay m) = (skbDequeue r c s).overlay m :=
    h.self.modifyQ c _ s
  have hcharge := charge_overlay (c := c) h.self pkt.size
  unfold forward
  cases r with
  | txc t =>
    dsimp only
    rw [hdequeue, TxState.log_overlay, hcharge, TxState.modifyCb_overlay, Option.map_some]
  | dest t d =>
    dsimp only
    rw [isoRlHasSpaceFor, h.2.q, ← isoRlHasSpaceFor, hdequeue, isoRlEnqueue_overlay h.2,
      Prod.map_snd, hcharge]
    split_ifs <;> rfl

theorem dequeueLoop_overlay (h : Clear m r) : ∀ (pkts : List Skb) (sum : ℕ) (s : TxState K D C),
    dequeueLoop p k r c pkts sum (s.overlay m) =
      Prod.map id (TxState.overlay m) (dequeueLoop p k r c pkts sum s) := by
  intro pkts
  induction pkts with
  | nil => exact fun _ _ => rfl
  | cons pkt rest ih =>
    intro sum s
    rw [dequeueLoop, dequeueLoop, peek_overlay h.self, h.self.q, forward_overlay h]
    generalize peek r c pkt s = s
    split_ifs
    · cases forward p k r c pkt s with
      | none => rfl
      | some s => exact ih _ s
    · rfl

variable [Fintype C]

theorem waitForTimer_overlay (r : RlId K D) (c : C) (s : TxState K D C) :
    waitForTimer r c (s.overlay m) = (waitForTimer r c s).overlay m := by
  have hlinked : (s.overlay m).Linked (r, c) ↔ s.Linked (r, c) := Iff.rfl
  have hlink : linkActive r c (s.overlay m) = (linkActive r c s).overlay m := by
    unfold linkActive
    simp only [hlinked, TxState.modifyCb_overlay, apply_ite (TxState.overlay m)]
  unfold waitForTimer
  rw [hlink]
  unfold startTimer
  rw [TxState.cb_overlay, TxState.modifyCb_overlay]
  split_ifs <;> rfl

theorem dequeueWith_overlay {unlock : TxState K D C → TxState K D C} (h : Clear m r)
    (hunlock : ∀ s, unlock (s.overlay m) = (unlock s).overlay m) (s : TxState K D C) :
    dequeueWith unlock p k r c (s.overlay m) = Prod.map id (TxState.overlay m)
      (dequeueWith unlock p k r c s) := by
  have hrest : ∀ (timeout : Bool) (s : TxState K D C),
      afterBorrow unlock p k r c timeout (s.overlay m) =
      Prod.map id (TxState.overlay m) (afterBorrow unlock p k r c timeout s) := by
    intro timeout s
    unfold afterBorrow
    rw [h.self.q, dequeueLoop_overlay h]
    simp only [Prod.map_fst, Prod.map_snd, id, hunlock, waitForTimer_overlay]
    split_ifs <;> rfl
  by_cases hlow : (s.q r c).tokens < (s.q r c).firstPktSize
  · rw [dequeueWith_of_lt unlock hlow, dequeueWith_of_lt unlock (by rwa [h.self.q]),
      isoRlBorrowTokens_overlay h.self, Prod.map_fst, Prod.map_snd, hrest, id]
  · rw [dequeueWith_of_not_lt unlock hlow, dequeueWith_of_not_lt unlock (by rwa [h.self.q]), hrest]

theorem isoRlDequeue_overlay (h : Clear m r) (s : TxState K D C) :
    isoRlDequeue p k r c (s.overlay m) = Prod.map id (TxState.overlay m)
      (isoRlDequeue p k r c s) := by
  have hroot : ∀ t, Transparent m (.txc t) → ∀ s, dequeueWith id p k (.txc t) c (s.overlay m) =
      Prod.map id (TxState.overlay m) (dequeueWith id p k (.txc t) c s) :=
    fun t ht s => dequeueWith_overlay (r := .txc t) ht
      (fun s => (rfl : id (s.overlay m) = (id s).overlay m)) s
  cases r with
  | txc t => exact hroot t h s
  | dest t d =>
    rw [isoRlDequeue, isoRlDequeue]
    refine dequeueWith_overlay h (fun s => ?_) s
    rw [hroot t h.2, Prod.map_snd]

end Functions

/-! ### Regions -/

/-- With a limiter of a destination, the class-level limiter that it feeds is in the region. -/
def Closed (A : Set (RlId K D)) : Prop := ∀ t d, .dest t d ∈ A → .txc t ∈ A

/-- The queues that are linked on active lists are in the region. -/
def Inside (A : Set (RlId K D)) (s : TxState K D C) : Prop :=
  ∀ c, ∀ x ∈ (s.cb c).activeList, x.1 ∈ A

section Region

variable {A : Set (RlId K D)} {m : RlId K D → Rl C → Rl C} {r : RlId K D} {p : Params}
  {k : Kernel} {c : C} {s s' : TxState K D C}

omit [DecidableEq K] [DecidableEq D] [DecidableEq C] in
theorem Closed.clear (hA : Closed A) (hm : ∀ r ∈ A, Transparent m r) (hr : r ∈ A) : Clear m r := by
  cases r with
  | txc t => exact hm _ hr
  | dest t d => exact ⟨hm _ hr, hm _ (hA t d hr)⟩

omit [DecidableEq K] [DecidableEq D] [DecidableEq C] in
theorem Inside.of_same (h : Inside A s) (hsame : SameSchedule s s') : Inside A s' := by
  intro c x hx
  rw [(hsame c).1] at hx
  exact h c x hx

omit [DecidableEq K] [DecidableEq D] in
theorem Inside.modifyCb (h : Inside A s) (f : Cb K D C → Cb K D C)
    (hf : ∀ x ∈ (f (s.cb c)).activeList, x.1 ∈ A) : Inside A (s.modifyCb c f) := by
  intro c' x hx
  by_cases hc : c' = c
  · subst hc
    rw [TxState.cb_modifyCb_self] at hx
    exact hf x hx
  · rw [TxState.cb_modifyCb_of_ne _ _ hc] at hx
    exact h c' x hx

variable [Fintype C]

theorem Inside.waitForTimer (h : Inside A s) (hr : r ∈ A) : Inside A (waitForTimer r c s) := by
  have hlink : Inside A (linkActive r c s) := by
    unfold linkActive
    split_ifs
    · exact h
    · refine h.modifyCb _ fun x hx => ?_
      rcases List.mem_append.1 hx with hx | hx
      · exact h c x hx
      · rw [List.mem_singleton.1 hx]
        exact hr
  unfold Rl.waitForTimer startTimer
  split_ifs
  · exact hlink
  · exact hlink.modifyCb _ fun x hx => hlink c x hx

theorem Inside.isoRlDequeue (hA : Closed A) (hr : r ∈ A) (h : Inside A s) :
    Inside A (isoRlDequeue p k r c s).2 := by
  have hwith : ∀ {unlock : TxState K D C → TxState K D C} {r : RlId K D} {s : TxState K D C},
      r ∈ A → (∀ s, Inside A s → Inside A (unlock s)) → Inside A s →
      Inside A (dequeueWith unlock p k r c s).2 := by
    intro unlock r s hr hunlock h
    refine dequeueWith_keeps (P := Inside A) (fun s h _ => ?_) (fun s h => ?_) hunlock
      (fun s h => h.waitForTimer hr) h
    · rcases isoRlBorrowTokens_cases p k r c s with hfail | ⟨-, hb⟩
      · rw [hfail]
        exact h
      · exact h.of_same (.of_cb hb.cb)
    · exact h.of_same (dequeueLoop_frame r c _ 0 s rfl).1
  cases r with
  | txc t => exact hwith hr (fun _ h => h) h
  | dest t d =>
    rw [Rl.isoRlDequeue]
    exact hwith hr (fun _ h => hwith (hA t d hr) (fun _ h => h) h) h

omit [Fintype C] in
theorem Inside.listDelInit (h : Inside A s) (x : RlId K D × C) : Inside A (listDelInit c x s) :=
  h.modifyCb _ fun y hy => h c y (List.mem_of_mem_erase hy)

omit [Fintype C] [DecidableEq C] in
theorem Inside.isoRlClock (h : Inside A s) : Inside A (isoRlClock p k r s) :=
  h.of_same (.of_cb (cb_isoRlClock ..))

/-- The walk of the tasklet visits entries of the list. -/
theorem taskletLoop_overlay (hA : Closed A) (hm : ∀ r ∈ A, Transparent m r)
    (first : Option (RlId K D × C)) :
    ∀ (fuel : ℕ) (pos tmp : Option (RlId K D × C)) (count sent : ℕ) (s : TxState K D C),
      Inside A s → (∀ x ∈ pos, x.1 ∈ A) → (∀ x ∈ tmp, x.1 ∈ A) →
      Inside A (taskletLoop p k c first fuel pos tmp count sent s) ∧
      taskletLoop p k c first fuel pos tmp count sent (s.overlay m) =
        (taskletLoop p k c first fuel pos tmp count sent s).overlay m := by
  intro fuel
  induction fuel with
  | zero => exact fun _ _ _ _ _ h _ _ => ⟨h, rfl⟩
  | succ fuel ih =>
    intro pos tmp count sent s h hpos htmp
    cases pos with
    | none => exact ⟨h, rfl⟩
    | some x =>
      have hx : x.1 ∈ A := hpos x rfl
      have hs : Inside A (isoRlDequeue p k x.1 x.2 (isoRlClock p k x.1 (listDelInit c x s))).2 :=
        .isoRlDequeue hA hx (h.listDelInit x).isoRlClock
      have hdel : listDelInit c x (s.overlay m) = (listDelInit c x s).overlay m := rfl
      rw [taskletLoop, taskletLoop]
      dsimp only
      rw [hdel, isoRlClock_overlay (hm _ hx), isoRlDequeue_overlay (hA.clear hm hx)]
      split_ifs
      · exact ⟨h, rfl⟩
      · exact ih _ _ _ _ _ hs htmp fun y hy => hs c y (Klist.mem_of_next_eq_some hy)

theorem isoRlXmitTasklet_overlay (hA : Closed A) (hm : ∀ r ∈ A, Transparent m r) (c : C)
    (h : Inside A s) :
    Inside A (isoRlXmitTasklet p k c s) ∧
      isoRlXmitTasklet p k c (s.overlay m) = (isoRlXmitTasklet p k c s).overlay m := by
  have hrun : Inside A (s.modifyCb c fun cb => { cb with xmitTimeout := false }) := by
    refine h.modifyCb _ fun x hx => ?_
    exact h c x hx
  have hwalk : ∀ s : TxState K D C, Inside A s →
      Inside A (taskletWalk p k c s) ∧
      taskletWalk p k c (s.overlay m) = (taskletWalk p k c s).overlay m := by
    intro s h
    refine taskletLoop_overlay hA hm _ _ _ _ _ _ s h (fun x hx => ?_) fun x hx => ?_
    · exact h c x (List.mem_of_mem_head? hx)
    · exact h c x (Klist.mem_of_next_eq_some hx)
  obtain ⟨hin, heq⟩ := hwalk (s.modifyCb c fun cb => { cb with xmitTimeout := false }).read hrun
  unfold isoRlXmitTasklet
  simp only [TxState.modifyCb_overlay, TxState.read_overlay, heq, TxState.cb_overlay]
  generalize taskletWalk p k c (s.modifyCb c fun cb => { cb with xmitTimeout := false }).read =
    w at hin ⊢
  by_cases hexit : p.isoExiting = true
  · rw [if_pos hexit, if_pos hexit]
    exact ⟨hrun, rfl⟩
  · rw [if_neg hexit, if_neg hexit]
    by_cases hlist : (w.cb c).activeList = []
    · rw [if_pos hlist, if_pos hlist]
      exact ⟨hin, rfl⟩
    · rw [if_neg hlist, if_neg hlist]
      refine ⟨hin.modifyCb _ fun x hx => ?_, rfl⟩
      exact hin c x hx

end Region

end Rl

end EyeQ
