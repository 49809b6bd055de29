import EyeQ.Klist.Rotation
import EyeQ.Rl.Equiv.Wakeup

/-!
# One round of the tasklet

`iso_rl_xmit_tasklet` is meant to serve each queue that is on its list when it starts once.  A queue
that it serves may come back to the end of the list, and so may the class-level queue that a
destination's queue feeds; the loop compares the look-ahead cursor with the entry at which it has
begun, to stop after one round.

`taskletServes` is the loop with what it leaves behind: the queues it has served, and why it has
ended.  `taskletLoop_eq` ties it to `taskletLoop`.  A loop that no limit has ended is a rotation of
the list (`taskletServes_rotates`), so `isoRlXmitTasklet_serves_iff` can say when it makes one
round: the last queue is left out if the first has come back and stands right behind it, and a queue
is served twice if it comes back before the first.
-/

namespace EyeQ.Rl

open Klist

variable {K D C : Type} [DecidableEq K] [DecidableEq D] [DecidableEq C] [Fintype C]

/-! ### The loop and the queues it serves -/

/-- Why the tasklet ends. -/
inductive Stop where
  /-- `iso_exiting` is set. -/
  | exiting
  /-- At the end of the list. -/
  | listEnd
  /-- `qtmp == first`. -/
  | first
  /-- The budget is spent, or the limit on `sent` is reached. -/
  | limit
  deriving DecidableEq

/-- The body of the loop, for the entry `x`. -/
def serve (p : Params) (k : Kernel) (c : C) (x : RlId K D × C) (s : TxState K D C) :
    ℕ × TxState K D C :=
  isoRlDequeue p k x.1 x.2 (isoRlClock p k x.1 (listDelInit c x s))

/-- The loop of `iso_rl_xmit_tasklet`: the entries on which it calls `iso_rl_dequeue`, in order, and
why it ends. -/
def taskletServes (p : Params) (k : Kernel) (c : C) (first : Option (RlId K D × C)) :
    ℕ → Option (RlId K D × C) → Option (RlId K D × C) → ℕ → ℕ → TxState K D C →
      List (RlId K D × C) × Stop
  | 0, _, _, _, _, _ => ([], .limit)
  | _ + 1, none, _, _, _, _ => ([], .listEnd)
  | fuel + 1, some x, tmp, count, sent, s =>
    if tmp = first then ([], .first)
    else if count + 1 > budget ∨ sent > 2 * p.isoMinBurstBytes then ([], .limit)
    else
      let (n, s) := serve p k c x s
      let (served, stop) := taskletServes p k c first fuel tmp
        (Klist.next (s.cb c).activeList tmp) (count + 2) (u32 (sent + n)) s
      (x :: served, stop)

/-- The state in which the loop starts. -/
def started (c : C) (s : TxState K D C) : TxState K D C :=
  (s.modifyCb c fun cb => { cb with xmitTimeout := false }).read

/-- The queues that a run of the tasklet on CPU `c` serves, and why it ends. -/
def taskletRun (p : Params) (k : Kernel) (c : C) (s : TxState K D C) : List (RlId K D × C) × Stop :=
  if p.isoExiting then ([], .exiting)
  else
    let first := (s.cb c).activeList.head?
    taskletServes p k c first taskletFuel first
    (Klist.next (s.cb c).activeList first) 0 0 (started c s)

/-- The state after `xs` have been served in order. -/
def servedAll (p : Params) (k : Kernel) (c : C) (xs : List (RlId K D × C)) (s : TxState K D C) :
    TxState K D C :=
  serveAll (fun x s => (serve p k c x s).2) xs s

/-- The run calls `iso_rl_dequeue` once for each queue that is on the list when it starts, in the
order of the list. -/
def ServesEachOnce (p : Params) (k : Kernel) (c : C) (s : TxState K D C) : Prop :=
  (taskletRun p k c s).1.filter (· ∈ (s.cb c).activeList) = (s.cb c).activeList

/-- When the turn of the last queue comes nothing stands behind it, or it is not the first queue
that stands right behind it, and of the queues that come back the first is the earliest, or stands
right behind the earliest. -/
def OneRound (p : Params) (k : Kernel) (c : C) (s : TxState K D C) : Prop :=
  let xs := (s.cb c).activeList
  let behind := ((servedAll p k c xs.dropLast (started c s)).cb c).activeList.tail
  behind = [] ∨
    behind.head? ≠ xs.head? ∧
      ∀ first ∈ xs.head?, TurnsAt first xs ((servedAll p k c xs (started c s)).cb c).activeList

section Loop

variable {p : Params} {k : Kernel} {c : C}

omit [DecidableEq K] [DecidableEq D] [Fintype C] in
theorem activeList_started (s : TxState K D C) :
    ((started c s).cb c).activeList = (s.cb c).activeList := by
  show ((s.modifyCb c fun cb => { cb with xmitTimeout := false }).cb c).activeList = _
  rw [TxState.cb_modifyCb_self]

/-- The loop is the body, on the entries it serves. -/
theorem taskletLoop_eq (first : Option (RlId K D × C)) :
    ∀ (fuel : ℕ) (pos tmp : Option (RlId K D × C)) (count sent : ℕ) (s : TxState K D C),
      taskletLoop p k c first fuel pos tmp count sent s
        = servedAll p k c (taskletServes p k c first fuel pos tmp count sent s).1 s := by
  intro fuel
  induction fuel with
  | zero => intro pos tmp count sent s; rfl
  | succ fuel ih =>
    intro pos tmp count sent s
    cases pos with
    | none => rfl
    | some x =>
      rw [taskletLoop, taskletServes]
      by_cases hfirst : tmp = first
      · simp only [hfirst, true_or, ↓reduceIte]
        rfl
      · by_cases hlimit : count + 1 > budget ∨ sent > 2 * p.isoMinBurstBytes
        · simp only [hfirst, hlimit, or_true, ↓reduceIte]
          rfl
        · simp only [hfirst, hlimit, or_false, ↓reduceIte]
          exact ih _ _ _ _ _

/-- What a run of the tasklet does to the limiters and to the list. -/
theorem isoRlXmitTasklet_eq (hexit : p.isoExiting = false) (s : TxState K D C) :
    taskletWalk p k c (started c s) = servedAll p k c (taskletRun p k c s).1 (started c s) := by
  rw [taskletWalk, taskletRun, hexit, activeList_started]
  exact taskletLoop_eq _ _ _ _ _ _ _

end Loop

/-! ### What a dequeue adds to the list -/

/-- The list of CPU `c` has got entries of `allowed` at its end. -/
def LinksOnly (c : C) (allowed : Set (RlId K D × C)) (s s' : TxState K D C) : Prop :=
  ∃ added, (s'.cb c).activeList = (s.cb c).activeList ++ added ∧ ∀ y ∈ added, y ∈ allowed

section Links

variable {p : Params} {k : Kernel} {c : C} {A B : Set (RlId K D × C)} {s s' s'' : TxState K D C}

section

omit [DecidableEq K] [DecidableEq D] [DecidableEq C] [Fintype C]

theorem LinksOnly.of_same (h : SameSchedule s s') : LinksOnly c A s s' :=
  ⟨[], by rw [(h c).1, List.append_nil], by simp⟩

theorem LinksOnly.trans (h : LinksOnly c A s s') (h' : LinksOnly c A s' s'') :
    LinksOnly c A s s'' := by
  obtain ⟨added, hlist, hA⟩ := h
  obtain ⟨added', hlist', hA'⟩ := h'
  refine ⟨added ++ added', by rw [hlist', hlist, List.append_assoc], fun y hy => ?_⟩
  rcases List.mem_append.mp hy with hy | hy
  · exact hA y hy
  · exact hA' y hy

theorem LinksOnly.mono (h : LinksOnly c A s s') (hAB : A ⊆ B) : LinksOnly c B s s' := by
  obtain ⟨added, hlist, hA⟩ := h
  exact ⟨added, hlist, fun y hy => hAB (hA y hy)⟩

end

theorem waitForTimer_linksOnly (r : RlId K D) (hr : (r, c) ∈ A) (s : TxState K D C) :
    LinksOnly c A s (waitForTimer r c s) := by
  have hlink : LinksOnly c A s (linkActive r c s) := by
    unfold linkActive
    split_ifs
    · exact .of_same fun _ => ⟨rfl, rfl, rfl⟩
    · refine ⟨[(r, c)], ?_, by simpa using hr⟩
      rw [TxState.cb_modifyCb_self]
  have htimer : ((startTimer c (linkActive r c s)).cb c).activeList
      = ((linkActive r c s).cb c).activeList := by
    unfold startTimer
    split_ifs
    · rfl
    · rw [TxState.cb_modifyCb_self]
  obtain ⟨added, hlist, hA⟩ := hlink
  exact ⟨added, htimer.trans hlist, hA⟩

theorem dequeueWith_linksOnly {unlock : TxState K D C → TxState K D C} (r : RlId K D)
    (hr : (r, c) ∈ A) (hunlock : ∀ s, LinksOnly c A s (unlock s)) (s : TxState K D C) :
    LinksOnly c A s (dequeueWith unlock p k r c s).2 := by
  refine dequeueWith_keeps (P := LinksOnly c A s) ?_ ?_ (fun s₁ h => h.trans (hunlock s₁)) ?_
    (.of_same fun _ => ⟨rfl, rfl, rfl⟩)
  · intro s₁ h _
    rcases isoRlBorrowTokens_cases p k r c s₁ with heq | ⟨-, hb⟩
    · rw [heq]
      exact h.trans (.of_same (.of_cb rfl))
    · exact h.trans (.of_same (.of_cb hb.cb))
  · intro s₁ h
    exact h.trans (.of_same (dequeueLoop_frame r c _ 0 s₁ rfl).1)
  · intro s₁ h
    exact h.trans (waitForTimer_linksOnly r hr s₁)

/-- A dequeue adds the queue itself and the queue it feeds, at most. -/
theorem isoRlDequeue_linksOnly (r : RlId K D) (s : TxState K D C) :
    LinksOnly c (insert (r, c) (onward r c)) s (isoRlDequeue p k r c s).2 := by
  cases r with
  | txc t =>
    exact dequeueWith_linksOnly (.txc t) (Set.mem_insert ..)
      (fun _ => .of_same fun _ => ⟨rfl, rfl, rfl⟩) s
  | dest t d =>
    have hunlock : ∀ s, LinksOnly c (insert (.dest t d, c) (onward (.dest t d) c)) s
        (dequeueWith id p k (.txc t) c s).2 := by
      intro s
      have hroot : LinksOnly c {(.txc t, c)} s (dequeueWith id p k (.txc t) c s).2 :=
        dequeueWith_linksOnly (.txc t) (Set.mem_singleton _)
          (fun _ => .of_same fun _ => ⟨rfl, rfl, rfl⟩) s
      exact hroot.mono (Set.subset_insert ..)
    rw [isoRlDequeue]
    exact dequeueWith_linksOnly (.dest t d) (Set.mem_insert ..) hunlock s

/-- A queue that is served leaves the front of the list. -/
theorem activeList_serve {x : RlId K D × C} {l : List (RlId K D × C)} (hx : x.2 = c)
    (hlist : (s.cb c).activeList = x :: l) :
    ∃ added, ((serve p k c x s).2.cb c).activeList = l ++ added ∧
      ∀ y ∈ added, y ∈ insert x (onward x.1 c) := by
  obtain ⟨r, c'⟩ := x
  obtain rfl : c' = c := hx
  obtain ⟨added, hadded, hA⟩ :=
    isoRlDequeue_linksOnly (p := p) (k := k) (c := c') r
      (isoRlClock p k r (listDelInit c' (r, c') s))
  refine ⟨added, ?_, hA⟩
  rw [serve, hadded, cb_isoRlClock, listDelInit, TxState.cb_modifyCb_self, hlist,
    List.erase_cons_head]

end Links

/-! ### The rotation -/

section Round

variable {p : Params} {k : Kernel} {c : C} {s : TxState K D C}

/-- The list has the queues of its CPU: those of `xs`, and class-level ones. -/
def RoundInv (c : C) (xs : List (RlId K D × C)) (s : TxState K D C) : Prop :=
  ∀ x ∈ (s.cb c).activeList, x.2 = c ∧ (x ∈ xs ∨ onward x.1 c = ∅)

theorem appends_serve (p : Params) (k : Kernel) (c : C) (xs : List (RlId K D × C)) :
    Appends (fun s : TxState K D C => (s.cb c).activeList) (fun x s => (serve p k c x s).2) xs
      (RoundInv c xs) where
  inv := by
    intro s x l hinv hlist y hy
    have hmem : ∀ y ∈ x :: l, y.2 = c ∧ (y ∈ xs ∨ onward y.1 c = ∅) := by
      rw [← hlist]
      exact hinv
    obtain ⟨added, hadded, hA⟩ := activeList_serve (p := p) (k := k)
      (hmem x List.mem_cons_self).1 hlist
    rw [hadded] at hy
    rcases List.mem_append.mp hy with hy | hy
    · exact hmem y (List.mem_cons_of_mem _ hy)
    · rcases hA y hy with rfl | hon
      · exact hmem y List.mem_cons_self
      · -- the queue that a queue feeds is a class-level one
        rcases x with ⟨_ | _, _⟩
        · exact absurd hon (Set.notMem_empty _)
        · obtain rfl : y = _ := hon
          exact ⟨rfl, Or.inr rfl⟩
  list_serve := by
    intro s x l hinv hlist
    obtain ⟨hx, honward⟩ := hinv x (by rw [hlist]; exact List.mem_cons_self)
    obtain ⟨added, hadded, hA⟩ := activeList_serve (p := p) (k := k) hx hlist
    refine ⟨added, hadded, fun hnot y hy => ?_⟩
    rcases hA y hy with rfl | hon
    · rfl
    · rw [honward.resolve_left hnot] at hon
      exact absurd hon (Set.notMem_empty _)

/-- A loop that no limit has ended is a rotation. -/
theorem taskletServes_rotates {xs : List (RlId K D × C)} {first : RlId K D × C} :
    ∀ (fuel : ℕ) (x : RlId K D × C) (l : List (RlId K D × C)) (count sent : ℕ) (s : TxState K D C),
      RoundInv c xs s → (s.cb c).activeList = x :: l →
      (taskletServes p k c (some first) fuel (some x) l.head? count sent s).2 ≠ .limit →
      Rotates (fun s : TxState K D C => (s.cb c).activeList)
        (fun x s => (serve p k c x s).2) first s
          (taskletServes p k c (some first) fuel (some x) l.head? count sent s).1 := by
  intro fuel
  induction fuel with
  | zero =>
    intro x l count sent s _ _ hstop
    exact absurd rfl hstop
  | succ fuel ih =>
    intro x l count sent s hinv hlist hstop
    rw [taskletServes] at hstop ⊢
    by_cases hfirst : l.head? = some first
    · simp only [hfirst, ↓reduceIte]
      obtain ⟨l', rfl⟩ := List.head?_eq_some_iff.mp hfirst
      exact .turned hlist
    · simp only [hfirst, ↓reduceIte] at hstop ⊢
      by_cases hlimit : count + 1 > budget ∨ sent > 2 * p.isoMinBurstBytes
      · simp only [hlimit, ↓reduceIte, ne_eq, not_true_eq_false] at hstop
      · simp only [hlimit, ↓reduceIte] at hstop ⊢
        obtain ⟨added, hadded, -⟩ := (appends_serve p k c xs).list_serve hinv hlist
        cases l with
        | nil =>
          -- the look-ahead cursor is on the head of the list
          rw [List.head?_nil] at hstop ⊢
          cases fuel with
          | zero => exact absurd rfl hstop
          | succ fuel => exact .last hlist
        | cons y l =>
          have hnext : Klist.next ((serve p k c x s).2.cb c).activeList (some y)
              = (l ++ added).head? := by
            rw [hadded, List.cons_append, next_cons_self]
          rw [List.head?_cons, hnext] at hstop ⊢
          refine .next hlist (fun h => hfirst (by rw [h]; rfl)) ?_
          exact ih y (l ++ added) _ _ _ ((appends_serve p k c xs).inv hinv hlist) hadded hstop

/-- A run of the tasklet that no limit ends serves each queue that is on the list once, and in
order, exactly if it is not told to exit and the list comes round as `OneRound` says. -/
theorem isoRlXmitTasklet_serves_iff (hown : ∀ x ∈ (s.cb c).activeList, x.2 = c)
    (hnd : (s.cb c).activeList.Nodup) (hne : (s.cb c).activeList ≠ [])
    (hstop : (taskletRun p k c s).2 ≠ .limit) :
    ServesEachOnce p k c s ↔ p.isoExiting = false ∧ OneRound p k c s := by
  by_cases hexit : p.isoExiting = true
  · refine iff_of_false (fun h => hne ?_) (fun h => absurd (hexit.symm.trans h.1) (by simp))
    rw [ServesEachOnce, taskletRun, if_pos hexit] at h
    exact h.symm
  · rw [Bool.not_eq_true] at hexit
    obtain ⟨first, l, hlist⟩ := List.exists_cons_of_ne_nil hne
    have hstart := activeList_started (c := c) s
    have hinv : RoundInv c (s.cb c).activeList (started c s) := by
      intro x hx
      rw [hstart] at hx
      exact ⟨hown x hx, Or.inl hx⟩
    have hhead : (s.cb c).activeList.head? = some first := by rw [hlist]; rfl
    have hrun : taskletRun p k c s
        = taskletServes p k c (some first) taskletFuel (some first) l.head? 0 0 (started c s) := by
      rw [taskletRun, hexit, hhead, hlist]
      dsimp only
      rw [next_cons_self]
      rfl
    have hrot := taskletServes_rotates (p := p) (k := k) taskletFuel first l 0 0 (started c s) hinv
      (hstart.trans hlist) (by rwa [← hrun])
    rw [← hrun] at hrot
    have hround := hrot.filter_eq_iff (appends_serve p k c _) hnd hinv hstart hhead
    unfold ServesEachOnce OneRound
    simp only [hhead, hexit, Option.mem_def, Option.some.injEq, forall_eq', true_and]
    refine Iff.trans (Iff.of_eq ?_) hround
    -- the two sides decide membership by different instances
    congr 1
    exact List.filter_congr fun x _ => decide_eq_decide.mpr Iff.rfl

end Round

/-! ### Two queues -/

/-- Two class-level queues on the list of the only CPU, each with a packet of 1500 bytes: the first
has `tokens` tokens, the second has enough. -/
def twoQueues (tokens : ℕ) : TxState Bool Unit Unit :=
  let waiting (n : ℕ) (q : Queue) : Queue :=
    { q with
      list := [.datagram n 1486 1 2 6 0 0]
      bytesEnqueued := 1500
      firstPktSize := 1500 }
  let s := ((TxState.init {} fun _ => 0).modifyQ (.txc false) () fun q =>
    { waiting 1 q with tokens := tokens }).modifyQ (.txc true)
      () fun q => { waiting 2 q with tokens := 1500 }
  s.modifyCb () fun cb => { cb with activeList := [(.txc false, ()), (.txc true, ())] }

/-- If the first queue drains, both are served. -/
theorem isoRlXmitTasklet_serves_drained :
    (taskletRun {} Kernel.still () (twoQueues 1500)).2 ≠ .limit ∧
      ServesEachOnce {} Kernel.still () (twoQueues 1500) := by
  have hstop : (taskletRun {} Kernel.still () (twoQueues 1500)).2 ≠ .limit := by decide +kernel
  refine ⟨hstop, (isoRlXmitTasklet_serves_iff (by decide +kernel) (by decide +kernel)
    (by decide +kernel) hstop).mpr ⟨rfl, Or.inl ?_⟩⟩
  decide +kernel

/-- If the first queue stays, the second is not served, although it has the tokens. -/
theorem isoRlXmitTasklet_not_serves :
    ((twoQueues 0).cb ()).activeList.Nodup ∧
      (taskletRun {} Kernel.still () (twoQueues 0)).2 = .first ∧
      ¬ ServesEachOnce {} Kernel.still () (twoQueues 0) := by
  refine ⟨by decide +kernel, by decide +kernel, ?_⟩
  unfold ServesEachOnce
  decide +kernel

end EyeQ.Rl
