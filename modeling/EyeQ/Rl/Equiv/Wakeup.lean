import EyeQ.Rl.Equiv.Small
import Mathlib.Data.Set.Insert

/-!
# No queue is left behind

A queue that holds packets is linked on the active list of its CPU, no queue is linked twice, and a
control block with a non-empty list has its timer armed or its tasklet scheduled.

Inside an operation this fails for the queues being worked on and for the CPU whose tasklet runs.
`Awake E F` is the invariant with those exceptions: the queues `E` need not be linked, and the CPUs
`F` need not be armed.  Each function is specified by the exceptions it removes.
`isoRlDequeue_awake` removes the queue that is dequeued: it is drained, or it waits for the timer.
For a destination's queue this rests on the same fact about the class-level queue, which the loop
has fed.  `isoRlXmitTasklet_awake` removes the CPU of the tasklet.

`isoRlEnqueue` alone does not link the queue it fills.  The only caller, `iso_tx`, dequeues right
after it, so runs are of operations that are not a bare enqueue (`Op.Complete`).
-/

namespace EyeQ.Rl

open Machine

variable {K D C : Type} [DecidableEq K] [DecidableEq D] [DecidableEq C]

/-! ### The invariant -/

/-- The invariant, with the exceptions `E` and `F`. -/
structure Awake (E : Set (RlId K D × C)) (F : Set C) (s : TxState K D C) : Prop where
  linked : ∀ r c, (r, c) ∉ E → (s.q r c).list ≠ [] → (r, c) ∈ (s.cb c).activeList
  own : ∀ c, ∀ x ∈ (s.cb c).activeList, x.2 = c
  nodup : ∀ c, (s.cb c).activeList.Nodup
  armed : ∀ c, c ∉ F → (s.cb c).activeList ≠ [] → (s.cb c).timer ∨ (s.cb c).xmitTimeout

/-- The active lists, the timers and the tasklets are the same. -/
def SameSchedule (s s' : TxState K D C) : Prop :=
  ∀ c, (s'.cb c).activeList = (s.cb c).activeList ∧ (s'.cb c).timer = (s.cb c).timer ∧
    (s'.cb c).xmitTimeout = (s.cb c).xmitTimeout

omit [DecidableEq K] [DecidableEq D] [DecidableEq C] in
theorem SameSchedule.of_cb {s s' : TxState K D C} (h : s'.cb = s.cb) : SameSchedule s s' :=
  fun _ => by rw [h]; exact ⟨rfl, rfl, rfl⟩

omit [DecidableEq K] [DecidableEq D] [DecidableEq C] in
theorem SameSchedule.trans {s₁ s₂ s₃ : TxState K D C} (h₁ : SameSchedule s₁ s₂)
    (h₂ : SameSchedule s₂ s₃) : SameSchedule s₁ s₃ :=
  fun c => ⟨(h₂ c).1.trans (h₁ c).1, (h₂ c).2.1.trans (h₁ c).2.1, (h₂ c).2.2.trans (h₁ c).2.2⟩

section

variable {E E' : Set (RlId K D × C)} {F : Set C} {s s' : TxState K D C}

section

omit [DecidableEq K] [DecidableEq D] [DecidableEq C]

/-- The queues that may have received packets become exceptions. -/
theorem Awake.of_same (h : Awake E F s) (hsched : SameSchedule s s')
    (hlist : ∀ r c, (r, c) ∉ E' → (s'.q r c).list ≠ [] → (r, c) ∉ E ∧ (s.q r c).list ≠ []) :
    Awake E' F s' where
  linked r c hE hne := by
    obtain ⟨hE, hne⟩ := hlist r c hE hne
    rw [(hsched c).1]
    exact h.linked r c hE hne
  own c := by
    rw [(hsched c).1]
    exact h.own c
  nodup c := by
    rw [(hsched c).1]
    exact h.nodup c
  armed c := by
    rw [(hsched c).1, (hsched c).2.1, (hsched c).2.2]
    exact h.armed c

theorem Awake.read (h : Awake E F s) : Awake E F s.read :=
  h.of_same (.of_cb rfl) fun _ _ hx hne => ⟨hx, hne⟩

theorem Awake.mono (h : Awake E F s) (hE : E ⊆ E') : Awake E' F s :=
  h.of_same (fun _ => ⟨rfl, rfl, rfl⟩) fun _ _ hx hne => ⟨fun hx' => hx (hE hx'), hne⟩

end

omit [DecidableEq C] in
/-- Work on one queue makes it an exception. -/
theorem Awake.of_touches {r : RlId K D} {c : C} (h : Awake E F s) (ht : Touches r c s s') :
    Awake (insert (r, c) E) F s' := by
  refine h.of_same (.of_cb ht.cb) fun r' c' hx hne => ?_
  rw [Set.mem_insert_iff, not_or] at hx
  rw [ht.q hx.1] at hne
  exact ⟨hx.2, hne⟩

end

/-! ### What leaves the packets alone -/

section

variable {E : Set (RlId K D × C)} {F : Set C} (p : Params) (k : Kernel) {s : TxState K D C}

omit [DecidableEq C] in
theorem isoRlClock_awake (r : RlId K D) (h : Awake E F s) : Awake E F (isoRlClock p k r s) :=
  h.of_same (.of_cb (cb_isoRlClock ..)) fun _ _ hx hne => ⟨hx, by rwa [q_isoRlClock] at hne⟩

theorem isoRlBorrowTokens_awake (r : RlId K D) (c : C) (h : Awake E F s) :
    Awake E F (isoRlBorrowTokens p k r c s).2 := by
  rcases isoRlBorrowTokens_cases p k r c s with hfail | ⟨-, hb⟩
  · rw [hfail]
    exact h.of_same (.of_cb rfl) fun _ _ hx hne => ⟨hx, hne⟩
  · refine h.of_same (.of_cb hb.cb) fun r' c' hx hne => ⟨hx, ?_⟩
    by_cases hx' : (r', c') = (r, c)
    · obtain ⟨rfl, rfl⟩ := Prod.mk.inj hx'
      rwa [hb.self] at hne
    · rwa [hb.other r' c' hx'] at hne

end

/-! ### The loop of `iso_rl_dequeue` -/

/-- The queue that a queue feeds. -/
def onward : RlId K D → C → Set (RlId K D × C)
  | .txc _, _ => ∅
  | .dest t _, c => {(.txc t, c)}

section Loop

variable {p : Params} {k : Kernel} (r : RlId K D) (c : C)

/-- Sending a packet changes no list but those of the queue and of the queue it feeds. -/
theorem forward_frame {pkt : Skb} {s s' : TxState K D C} (h : forward p k r c pkt s = some s') :
    SameSchedule s s' ∧ ∀ r' c', (r', c') ≠ (r, c) → (r', c') ∉ onward r c →
      s'.q r' c' = s.q r' c' := by
  unfold forward at h
  cases r with
  | txc t =>
    obtain rfl := Option.some.inj h
    refine ⟨fun c' => ?_, fun r' c' hne _ => ?_⟩
    · by_cases hc : c' = c
      · subst hc
        rw [TxState.cb_modifyCb_self]
        exact ⟨rfl, rfl, rfl⟩
      · rw [TxState.cb_modifyCb_of_ne _ _ hc]
        exact ⟨rfl, rfl, rfl⟩
    · rw [TxState.q_modifyCb, q_charge_of_ne _ _ hne, TxState.q_log, q_skbDequeue_of_ne _ hne]
  | dest t d =>
    dsimp only at h
    split_ifs at h
    obtain rfl := Option.some.inj h
    -- the packet goes to the class-level queue, which is the only other one that changes
    have htouch := isoRlEnqueue_touches p k (.txc t) pkt c (skbDequeue (.dest t d) c s)
    refine ⟨.of_cb htouch.cb, fun r' c' hne honward => ?_⟩
    rw [q_charge_of_ne _ _ hne, htouch.q honward, q_skbDequeue_of_ne _ hne]

/-- The loop, too.  It reports no timeout only when it has drained the queue. -/
theorem dequeueLoop_frame : ∀ (pkts : List Skb) (sum : ℕ) (s : TxState K D C),
    (s.q r c).list = pkts →
      SameSchedule s (dequeueLoop p k r c pkts sum s).2 ∧
      (∀ r' c', (r', c') ≠ (r, c) → (r', c') ∉ onward r c →
        (dequeueLoop p k r c pkts sum s).2.q r' c' = s.q r' c') ∧
      ((dequeueLoop p k r c pkts sum s).1.1 = false →
        ((dequeueLoop p k r c pkts sum s).2.q r c).list = []) := by
  intro pkts
  induction pkts with
  | nil =>
    intro sum s hlist
    exact ⟨fun _ => ⟨rfl, rfl, rfl⟩, fun _ _ _ _ => rfl, fun _ => hlist⟩
  | cons pkt rest ih =>
    intro sum s hlist
    have hlist' : ((peek r c pkt s).q r c).list = pkt :: rest := by simp [hlist]
    have hpeek : ∀ r' c', (r', c') ≠ (r, c) → (peek r c pkt s).q r' c' = s.q r' c' :=
      fun r' c' hne => q_peek_of_ne pkt s hne
    have hstop : SameSchedule s (peek r c pkt s) := .of_cb rfl
    -- the loop stops for want of tokens, at the burst limit or at a full class-level queue
    rw [dequeueLoop]
    split_ifs
    · cases hfwd : forward p k r c pkt (peek r c pkt s) with
      | none => exact ⟨hstop, fun r' c' hne _ => hpeek r' c' hne, fun h => absurd h (by simp)⟩
      | some s' =>
        obtain ⟨hsched, hother⟩ := forward_frame r c hfwd
        obtain ⟨ihsched, ihother, ihdrained⟩ :=
          ih (sum + pkt.size) s' (list_forward hlist' hfwd)
        refine ⟨(hstop.trans hsched).trans ihsched, fun r' c' hne hon => ?_, ihdrained⟩
        exact (ihother r' c' hne hon).trans ((hother r' c' hne hon).trans (hpeek r' c' hne))
    · exact ⟨hstop, fun r' c' hne _ => hpeek r' c' hne, fun h => absurd h (by simp)⟩

/-- After the loop the queue it feeds is an exception, and so is the queue itself if it reports a
timeout. -/
theorem dequeueLoop_awake {E : Set (RlId K D × C)} {F : Set C} {s : TxState K D C} (sum : ℕ)
    (h : Awake (insert (r, c) E) F s) :
    Awake (onward r c ∪ insert (r, c) E) F (dequeueLoop p k r c (s.q r c).list sum s).2 ∧
    ((dequeueLoop p k r c (s.q r c).list sum s).1.1 = false →
      Awake (onward r c ∪ E) F (dequeueLoop p k r c (s.q r c).list sum s).2) := by
  obtain ⟨hsched, hother, hdrained⟩ := dequeueLoop_frame (p := p) (k := k) r c _ sum s rfl
  refine ⟨h.of_same hsched fun r' c' hx hne => ?_, fun hdone => h.of_same hsched ?_⟩
  · rw [Set.mem_union, not_or] at hx
    have hne' : (r', c') ≠ (r, c) := fun hrc => hx.2 (hrc ▸ Set.mem_insert _ _)
    rw [hother r' c' hne' hx.1] at hne
    exact ⟨hx.2, hne⟩
  · intro r' c' hx hne
    rw [Set.mem_union, not_or] at hx
    have hne' : (r', c') ≠ (r, c) := by
      intro hrc
      obtain ⟨rfl, rfl⟩ := Prod.mk.inj hrc
      exact hne (hdrained hdone)
    rw [hother r' c' hne' hx.1] at hne
    refine ⟨fun hin => ?_, hne⟩
    rcases Set.mem_insert_iff.mp hin with hrc | hE
    · exact hne' hrc
    · exact hx.2 hE

end Loop

/-! ### Waiting for the timer -/

variable [Fintype C]

section Timer

variable {E : Set (RlId K D × C)} {F : Set C} {s : TxState K D C}

/-- Linking a queue removes it from the exceptions; the CPU becomes one. -/
theorem linkActive_awake (r : RlId K D) (c : C) (h : Awake (insert (r, c) E) F s) :
    Awake E (insert c F) (linkActive r c s) := by
  have hnotin : ∀ {r' c'}, (r', c') ∉ E → (r', c') ≠ (r, c) → (r', c') ∉ insert (r, c) E :=
    fun hE hne hin => (Set.mem_insert_iff.mp hin).elim hne hE
  unfold linkActive
  split_ifs with hlinked
  · -- on whichever list it is linked, that list is the one of its own CPU
    obtain ⟨c₀, hmem⟩ := hlinked
    have hc₀ : c = c₀ := h.own c₀ _ hmem
    subst hc₀
    refine ⟨fun r' c' hE hne => ?_, h.own, h.nodup, fun c' hF => ?_⟩
    · by_cases hx : (r', c') = (r, c)
      · obtain ⟨rfl, rfl⟩ := Prod.mk.inj hx
        exact hmem
      · exact h.linked r' c' (hnotin hE hx) hne
    · exact h.armed c' fun hc => hF (Set.mem_insert_of_mem _ hc)
  · -- it is appended to the list of its CPU; all other lists are as they were
    have hfresh : (r, c) ∉ (s.cb c).activeList := fun hmem => hlinked ⟨c, hmem⟩
    refine ⟨fun r' c' hE hne => ?_, fun c' x hx => ?_, fun c' => ?_, fun c' hF hne => ?_⟩
    · by_cases hc : c' = c
      · subst hc
        rw [TxState.cb_modifyCb_self]
        by_cases hr : r' = r
        · subst hr
          exact List.mem_append_right _ (List.mem_singleton_self _)
        · refine List.mem_append_left _ (h.linked r' c' (hnotin hE fun hrc => ?_) hne)
          exact hr (Prod.mk.inj hrc).1
      · rw [TxState.cb_modifyCb_of_ne _ _ hc]
        exact h.linked r' c' (hnotin hE fun hrc => hc (Prod.mk.inj hrc).2) hne
    · by_cases hc : c' = c
      · subst hc
        rw [TxState.cb_modifyCb_self] at hx
        rcases List.mem_append.mp hx with hx | hx
        · exact h.own c' x hx
        · rw [List.mem_singleton.mp hx]
      · rw [TxState.cb_modifyCb_of_ne _ _ hc] at hx
        exact h.own c' x hx
    · by_cases hc : c' = c
      · subst hc
        rw [TxState.cb_modifyCb_self]
        refine List.nodup_append.mpr ⟨h.nodup c', List.nodup_singleton _, ?_⟩
        intro a ha b hb hab
        rw [List.mem_singleton.mp hb] at hab
        exact hfresh (hab ▸ ha)
      · rw [TxState.cb_modifyCb_of_ne _ _ hc]
        exact h.nodup c'
    · have hc : c' ≠ c := fun hc => hF (hc ▸ Set.mem_insert _ _)
      rw [TxState.cb_modifyCb_of_ne _ _ hc] at hne ⊢
      exact h.armed c' (fun hc' => hF (Set.mem_insert_of_mem _ hc')) hne

omit [DecidableEq K] [DecidableEq D] [Fintype C] in
/-- A change of the timer or the tasklet of one CPU. -/
theorem modifyCb_awake {F' : Set C} (c : C) (f : Cb K D C → Cb K D C)
    (hlist : ∀ cb, (f cb).activeList = cb.activeList) (hF : ∀ c', c' ≠ c → c' ∈ F → c' ∈ F')
    (harmed : c ∉ F' → (s.cb c).activeList ≠ [] → (f (s.cb c)).timer ∨ (f (s.cb c)).xmitTimeout)
    (h : Awake E F s) : Awake E F' (s.modifyCb c f) := by
  have hsame : ∀ c', ((s.modifyCb c f).cb c').activeList = (s.cb c').activeList := by
    intro c'
    by_cases hc : c' = c
    · subst hc
      rw [TxState.cb_modifyCb_self, hlist]
    · rw [TxState.cb_modifyCb_of_ne _ _ hc]
  refine ⟨fun r' c' hE hne => ?_, fun c' => ?_, fun c' => ?_, fun c' hF' hne => ?_⟩
  · rw [hsame]
    exact h.linked r' c' hE hne
  · rw [hsame]
    exact h.own c'
  · rw [hsame]
    exact h.nodup c'
  · rw [hsame] at hne
    by_cases hc : c' = c
    · subst hc
      rw [TxState.cb_modifyCb_self]
      exact harmed hF' hne
    · rw [TxState.cb_modifyCb_of_ne _ _ hc]
      exact h.armed c' (fun hin => hF' (hF c' hc hin)) hne

omit [DecidableEq K] [DecidableEq D] [Fintype C] in
theorem startTimer_awake (c : C) (h : Awake E (insert c F) s) : Awake E F (startTimer c s) := by
  unfold startTimer
  split_ifs with htimer
  · refine ⟨h.linked, h.own, h.nodup, fun c' hF hne => ?_⟩
    by_cases hc : c' = c
    · subst hc
      exact Or.inl htimer
    · exact h.armed c' (fun hin => (Set.mem_insert_iff.mp hin).elim hc hF) hne
  · refine modifyCb_awake c _ (fun _ => rfl) ?_ (fun _ _ => Or.inl rfl) h
    exact fun c' hc hin => (Set.mem_insert_iff.mp hin).resolve_left hc

/-- A queue that waits for the timer is no exception. -/
theorem waitForTimer_awake (r : RlId K D) (c : C) (h : Awake (insert (r, c) E) F s) :
    Awake E F (waitForTimer r c s) :=
  startTimer_awake c (linkActive_awake r c h)

end Timer

/-! ### `iso_rl_dequeue` -/

section Dequeue

variable {E : Set (RlId K D × C)} {F : Set C} {p : Params} {k : Kernel} {s : TxState K D C}

/-- Every exit leaves the queue drained or waiting, given that what is done at `unlock` takes care
of the queue that is fed. -/
theorem dequeueWith_awake {unlock : TxState K D C → TxState K D C} (hexit : p.isoExiting = false)
    (r : RlId K D) (c : C)
    (hunlock : ∀ E' s, Awake (onward r c ∪ E') F s → Awake E' F (unlock s))
    (h : Awake (insert (r, c) E) F s) : Awake E F (dequeueWith unlock p k r c s).2 := by
  have hrest : ∀ (timeout : Bool) (s : TxState K D C), Awake (insert (r, c) E) F s →
      Awake E F (afterBorrow unlock p k r c timeout s).2 := by
    intro timeout s h
    obtain ⟨hcut, hdrained⟩ := dequeueLoop_awake (p := p) (k := k) r c 0 h
    simp only [afterBorrow, hexit, Bool.false_eq_true, ↓reduceIte, not_false_eq_true, and_true]
    split_ifs with htimeout hcase
    · -- no tokens, or the lock was contended
      exact waitForTimer_awake r c h
    · -- the loop was cut short
      exact waitForTimer_awake r c (hunlock _ _ hcut)
    · -- the queue is drained
      refine hunlock _ _ (hdrained ?_)
      simpa using hcase
  by_cases hlow : (s.q r c).tokens < (s.q r c).firstPktSize
  · rw [dequeueWith_of_lt unlock hlow]
    exact hrest _ _ (isoRlBorrowTokens_awake p k r c h)
  · rw [dequeueWith_of_not_lt unlock hlow]
    exact hrest _ _ h

/-- `iso_rl_dequeue` takes its queue off the exceptions. -/
theorem isoRlDequeue_awake (hexit : p.isoExiting = false) (r : RlId K D) (c : C)
    (h : Awake (insert (r, c) E) F s) : Awake E F (isoRlDequeue p k r c s).2 := by
  have hroot : ∀ t E' (s : TxState K D C), Awake (insert (.txc t, c) E') F s →
      Awake E' F (dequeueWith id p k (.txc t) c s).2 := by
    intro t E' s h
    refine dequeueWith_awake hexit (.txc t) c (fun E' s h => ?_) h
    rwa [onward, Set.empty_union] at h
  cases r with
  | txc t => exact hroot t E s h
  | dest t d =>
    have hparent : ∀ E' (s : TxState K D C), Awake (onward (.dest t d) c ∪ E') F s →
        Awake E' F (dequeueWith id p k (.txc t) c s).2 := by
      intro E' s h
      rw [onward, Set.singleton_union] at h
      exact hroot t E' s h
    rw [isoRlDequeue]
    exact dequeueWith_awake hexit (.dest t d) c hparent h

/-- Dequeueing a queue that is no exception. -/
theorem isoRlDequeue_awake' (hexit : p.isoExiting = false) (r : RlId K D) (c : C)
    (h : Awake E F s) : Awake E F (isoRlDequeue p k r c s).2 :=
  isoRlDequeue_awake hexit r c (h.mono (Set.subset_insert _ _))

end Dequeue

/-! ### The tasklet -/

section Tasklet

variable {E : Set (RlId K D × C)} {F : Set C} {p : Params} {k : Kernel} {s : TxState K D C}

omit [Fintype C] in
/-- An entry that is unlinked becomes an exception. -/
theorem listDelInit_awake (c : C) (x : RlId K D × C) (h : Awake E F s) :
    Awake (insert x E) F (listDelInit c x s) := by
  unfold listDelInit
  refine ⟨fun r' c' hE hne => ?_, fun c' y hy => ?_, fun c' => ?_, fun c' hF hne => ?_⟩
  · rw [Set.mem_insert_iff, not_or] at hE
    have hmem := h.linked r' c' hE.2 hne
    by_cases hc : c' = c
    · subst hc
      rw [TxState.cb_modifyCb_self]
      exact (List.mem_erase_of_ne hE.1).mpr hmem
    · rwa [TxState.cb_modifyCb_of_ne _ _ hc]
  · by_cases hc : c' = c
    · subst hc
      rw [TxState.cb_modifyCb_self] at hy
      exact h.own c' y (List.mem_of_mem_erase hy)
    · rw [TxState.cb_modifyCb_of_ne _ _ hc] at hy
      exact h.own c' y hy
  · by_cases hc : c' = c
    · subst hc
      rw [TxState.cb_modifyCb_self]
      exact (h.nodup c').erase x
    · rw [TxState.cb_modifyCb_of_ne _ _ hc]
      exact h.nodup c'
  · by_cases hc : c' = c
    · subst hc
      rw [TxState.cb_modifyCb_self] at hne ⊢
      refine h.armed c' hF fun hnil => hne ?_
      show (s.cb c').activeList.erase x = []
      rw [hnil, List.erase_nil]
    · rw [TxState.cb_modifyCb_of_ne _ _ hc] at hne ⊢
      exact h.armed c' hF hne

/-- Each entry that the loop unlinks is dequeued before the next one; where the loop is cut short,
the entries not reached are still linked. -/
theorem taskletLoop_awake (hexit : p.isoExiting = false) (c : C) (first : Option (RlId K D × C)) :
    ∀ (fuel : ℕ) (pos tmp : Option (RlId K D × C)) (count sent : ℕ) (s : TxState K D C),
      Awake E F s → Awake E F (taskletLoop p k c first fuel pos tmp count sent s) := by
  intro fuel
  induction fuel with
  | zero => intro pos tmp count sent s h; exact h
  | succ fuel ih =>
    intro pos tmp count sent s h
    cases pos with
    | none => exact h
    | some x =>
      rw [taskletLoop]
      split_ifs
      · exact h
      · apply ih
        exact isoRlDequeue_awake hexit x.1 x.2 (isoRlClock_awake p k x.1 (listDelInit_awake c x h))

/-- The tasklet re-arms the timer if it leaves queues on the list. -/
theorem isoRlXmitTasklet_awake (hexit : p.isoExiting = false) (c : C) (h : Awake E F s) :
    Awake E F (isoRlXmitTasklet p k c s) := by
  -- while the tasklet runs nothing has to wake the CPU up, so it is an exception
  have hrun : Awake E (insert c F) (s.modifyCb c fun cb => { cb with xmitTimeout := false }) :=
    modifyCb_awake c _ (fun _ => rfl) (fun _ _ hin => Set.mem_insert_of_mem _ hin)
      (fun hc => absurd (Set.mem_insert c F) hc) h
  have hwalk : Awake E (insert c F) (taskletWalk p k c
      (s.modifyCb c fun cb => { cb with xmitTimeout := false }).read) :=
    taskletLoop_awake hexit c _ _ _ _ _ _ _ hrun.read
  unfold isoRlXmitTasklet
  simp only [hexit, Bool.false_eq_true, ↓reduceIte]
  split_ifs with hempty
  · refine ⟨hwalk.linked, hwalk.own, hwalk.nodup, fun c' hF hne => ?_⟩
    by_cases hc : c' = c
    · subst hc
      exact absurd hempty hne
    · exact hwalk.armed c' (fun hin => (Set.mem_insert_iff.mp hin).elim hc hF) hne
  · refine modifyCb_awake c _ (fun _ => rfl) ?_ (fun _ _ => Or.inl rfl) hwalk
    exact fun c' hc hin => (Set.mem_insert_iff.mp hin).resolve_left hc

end Tasklet

/-! ### Runs -/

/-- The operation is not a bare enqueue. -/
def Op.Complete : Op K D C → Prop
  | .enqueue .. => False
  | _ => True

/-- A complete operation ends without exceptions if it starts without them. -/
theorem step_awake {p : Params} {k : Kernel} (hexit : p.isoExiting = false) (s : TxState K D C)
    (op : Op K D C) (hop : op.Complete) (h : Awake ∅ ∅ s) : Awake ∅ ∅ (step p k s op) := by
  cases op with
  | tx t d c skb =>
    -- the queue that the packet is put in is an exception until it is dequeued
    exact isoRlDequeue_awake hexit (.dest t d) c (h.of_touches (isoRlEnqueue_touches ..))
  | enqueue t d c skb => exact hop.elim
  | dequeue r c => exact isoRlDequeue_awake' hexit r c h
  | borrow r c =>
    unfold step
    dsimp only
    split_ifs
    · exact isoRlBorrowTokens_awake p k r c h
    · exact h
  | clock r => exact isoRlClock_awake p k r h
  | feedback t d rate =>
    refine h.of_same (.of_cb rfl) fun r' c' hx hne => ⟨hx, ?_⟩
    by_cases hr : r' = .dest t d
    · subst hr
      rwa [step, TxState.q_read, TxState.q_modifyRl_self] at hne
    · rwa [step, TxState.q_read, TxState.q_modifyRl_of_ne _ _ _ hr] at hne
  | classRate t rate =>
    refine h.of_same (.of_cb rfl) fun r' c' hx hne => ⟨hx, ?_⟩
    by_cases hr : r' = .txc t
    · subst hr
      rwa [step, TxState.q_modifyRl_self] at hne
    · rwa [step, TxState.q_modifyRl_of_ne _ _ _ hr] at hne
  | timeout c =>
    unfold step isoRlTimeout
    dsimp only
    split_ifs
    · exact modifyCb_awake c _ (fun _ => rfl) (fun _ _ hin => hin) (fun _ _ => Or.inr rfl) h
    · exact h
  | tasklet c => exact isoRlXmitTasklet_awake hexit c h

theorem runFrom_awake {p : Params} (k : Kernel) (hexit : p.isoExiting = false) (t : RlId K D → ℕ)
    (ops : List (Op K D C)) (hops : ∀ op ∈ ops, op.Complete) : Awake ∅ ∅ (runFrom p k t ops) := by
  refine run_invariant (step p k) (step_awake hexit) ?_ hops
  exact ⟨fun _ _ _ hne => absurd rfl hne, fun _ _ hx => absurd hx List.not_mem_nil,
    fun _ => List.nodup_nil, fun _ _ hne => absurd rfl hne⟩

/-- **No lost wakeup.**  After every run of complete operations, a queue with packets is linked on
the active list of its own CPU, no queue is linked twice, on one list or on two, and a control block
with a non-empty list has its timer armed or its tasklet scheduled. -/
theorem runFrom_no_lost_wakeup (p : Params) (k : Kernel) (hexit : p.isoExiting = false)
    (t : RlId K D → ℕ) (ops : List (Op K D C)) (hops : ∀ op ∈ ops, op.Complete) :
    (∀ r c, ((runFrom p k t ops).q r c).list ≠ [] →
      (r, c) ∈ ((runFrom p k t ops).cb c).activeList) ∧
    (∀ c, ((runFrom p k t ops).cb c).activeList.Nodup) ∧
    (∀ x c c', x ∈ ((runFrom p k t ops).cb c).activeList →
      x ∈ ((runFrom p k t ops).cb c').activeList → c = c') ∧
    (∀ c, ((runFrom p k t ops).cb c).activeList ≠ [] →
      ((runFrom p k t ops).cb c).timer ∨ ((runFrom p k t ops).cb c).xmitTimeout) := by
  have h := runFrom_awake k hexit t ops hops
  refine ⟨fun r c => h.linked r c (Set.notMem_empty _), h.nodup, fun x c c' hx hx' => ?_,
    fun c => h.armed c (Set.notMem_empty _)⟩
  rw [← h.own c x hx, ← h.own c' x hx']

theorem runFrom_no_lost_wakeup_onePacket :
    ((runFrom {} Kernel.still (fun _ => 0) onePacket).q (.dest () ()) ()).list ≠ [] ∧
      (.dest () (), ()) ∈ ((runFrom {} Kernel.still (fun _ => 0) onePacket).cb ()).activeList := by
  have hlist : ((runFrom {} Kernel.still (fun _ => 0) onePacket).q (.dest () ()) ()).list ≠ [] := by
    decide
  have hops : ∀ op ∈ onePacket, op.Complete := by
    intro op hop
    rw [List.mem_singleton.mp hop]
    trivial
  exact ⟨hlist, (runFrom_no_lost_wakeup {} Kernel.still rfl (fun _ => 0) onePacket hops).1 _ _
    hlist⟩

end EyeQ.Rl
