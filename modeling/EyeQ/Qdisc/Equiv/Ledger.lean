import EyeQ.Ledger.Basic
import EyeQ.Qdisc.Basic
import EyeQ.Rl.Equiv.Order

/-!
# Every packet is somewhere

A buffer that the qdisc was given, or that `skb_gso_segment` made, can be in a limiter's queue, with
the driver, or freed.  `holds s x π` counts how often the buffer `x` is at the place `π`.

`Balance inn out s s'` says that from `s` to `s'` the buffers `inn` have come in and the buffers
`out` have been taken away.  The segments made on the way count as coming in, and the packets whose
segmentation failed as taken away.  Each statement of `iso_rl_enqueue` and `iso_rl_dequeue` is such
an exchange; a packet that passes from a queue to the class-level queue is taken from the one and
put in the other, because it is only passed on when there is room.

`iso_rl_enqueue` leaves a packet whose segmentation failed to its caller, with the verdict `error`.
That the packet is taken away all the same is proved of the callers: `iso_enqueue` and
`iso_rl_dequeue` do with it what they do with one that was queued.  So a buffer is at a place as
often as it has come in, less the times its segmentation failed (`runFrom_addsUp`).
-/

namespace EyeQ.Qdisc

open Rl Ledger Machine

variable {K D C : Type} [DecidableEq K] [DecidableEq D] [DecidableEq C]

/-! ### Places -/

/-- Where a buffer can be. -/
inductive Place (K D C : Type) where
  /-- In the queue of a limiter on a CPU. -/
  | queue (r : RlId K D) (c : C)
  /-- Handed to `skb_xmit`. -/
  | driver
  /-- Given to `kfree_skb`. -/
  | freed
deriving DecidableEq

/-- The buffer that an event disposes of, and where it goes. -/
def placed : Event K D C → Option (Place K D C × ℕ)
  | .xmit _ skb => some (.driver, skb.ptr)
  | .kfree _ skb => some (.freed, skb.ptr)
  | _ => none

/-- The buffers in a queue. -/
def ptrs (l : List Skb) : List ℕ := l.map Skb.ptr

/-- The buffers at a place that is a queue. -/
def queued (s : TxState K D C) : Place K D C → List ℕ
  | .queue r c => ptrs (s.q r c).list
  | _ => []

/-- How often the buffer `x` is at a place. -/
def holds (s : TxState K D C) (x : ℕ) (π : Place K D C) : ℕ :=
  (queued s π).count x + (s.trace.filterMap placed).count (π, x)

/-- The buffers that an event brings in. -/
def made : Event K D C → List ℕ
  | .gsoSegment _ _ _ (some segs) => ptrs segs
  | _ => []

/-- The buffers made by segmentation. -/
def segments (s : TxState K D C) : Multiset ℕ := ↑(s.trace.flatMap made)

/-- The buffer whose segmentation fails. -/
def failed : Event K D C → List ℕ
  | .gsoSegment _ _ skb none => [skb.ptr]
  | _ => []

/-- The buffers whose segmentation has failed. -/
def failures (s : TxState K D C) : Multiset ℕ := ↑(s.trace.flatMap failed)

/-- The buffer is at exactly one place, once. -/
def Accounted (s : TxState K D C) (x : ℕ) : Prop :=
  ∃ π, holds s x π = 1 ∧ ∀ π', π' ≠ π → holds s x π' = 0

/-- The buffer that an operation brings in from outside. -/
def Op.given : Op K D C → Multiset ℕ
  | .enqueue _ _ skb => {skb.ptr}
  | _ => 0

/-- The buffers of a run: those given to the qdisc, and those made by segmentation. -/
def arrived (ops : List (Op K D C)) (s : TxState K D C) : Multiset ℕ :=
  (ops.map Op.given).sum + segments s

/-! ### Balances -/

/-- From `s` to `s'` the buffers `inn` have come in and the buffers `out` have been taken away,
besides the segments made and the packets whose segmentation failed. -/
def Balance (inn out : Multiset ℕ) (s s' : TxState K D C) : Prop :=
  ∀ x, Exchange (holds s x) (holds s' x)
    (inn.count x + (segments s').count x + (failures s).count x)
    (out.count x + (segments s).count x + (failures s').count x)

section

variable {inn out inn' out' : Multiset ℕ} {s s' s'' : TxState K D C}

theorem Balance.trans (h₁ : Balance inn out s s') (h₂ : Balance inn' out' s' s'') :
    Balance (inn + inn') (out + out') s s'' := by
  intro x
  refine ((h₁ x).trans (h₂ x)).congr ?_
  simp only [Multiset.count_add]
  omega

/-- What is taken away and put back cancels. -/
theorem Balance.cancel (l : Multiset ℕ) (h : Balance (inn + l) (out + l) s s') :
    Balance inn out s s' := by
  intro x
  refine (h x).congr ?_
  simp only [Multiset.count_add]
  omega

/-- The queues hold the same packets, and nothing has happened. -/
theorem Balance.of_same (hlist : ∀ r c, (s'.q r c).list = (s.q r c).list)
    (htrace : s'.trace = s.trace) : Balance 0 0 s s' := by
  intro x
  have hholds : holds s' x = holds s x := by
    ext π
    cases π <;> simp [holds, queued, hlist, htrace]
  rw [hholds, segments, segments, failures, failures, htrace]
  exact Exchange.refl _ _

theorem Balance.refl (s : TxState K D C) : Balance 0 0 s s := .of_same (fun _ _ => rfl) rfl

/-- A path of steps that bring in nothing brings in nothing. -/
theorem balance_path {small : TxState K D C → TxState K D C → Prop}
    (hsmall : ∀ s s', small s s' → Balance 0 0 s s') (hpath : IsPath small s s') :
    Balance 0 0 s s' :=
  path_invariant (P := Balance 0 0 s)
    (fun _ _ hlast hs => by simpa using hs.trans (hsmall _ _ hlast)) hpath (.refl s)

private theorem count_singleton (x y : ℕ) : Multiset.count x {y} = [y].count x := by
  rw [← Multiset.coe_singleton, Multiset.coe_count]

/-! ### Events -/

theorem holds_log (e : Event K D C) (x : ℕ) (π : Place K D C) :
    holds (s.log e) x π = holds s x π + ((placed e).toList).count (π, x) := by
  have hqueued : queued (s.log e) π = queued s π := by cases π <;> rfl
  unfold holds
  rw [hqueued, TxState.log, List.filterMap_append, List.count_append, ← Nat.add_assoc]
  cases h : placed e <;> simp [h]

omit [DecidableEq K] [DecidableEq D] [DecidableEq C] in
theorem segments_log (e : Event K D C) : segments (s.log e) = segments s + ↑(made e) := by
  unfold segments TxState.log
  rw [List.flatMap_append, List.flatMap_singleton, Multiset.coe_add]

omit [DecidableEq K] [DecidableEq D] [DecidableEq C] in
theorem failures_log (e : Event K D C) : failures (s.log e) = failures s + ↑(failed e) := by
  unfold failures TxState.log
  rw [List.flatMap_append, List.flatMap_singleton, Multiset.coe_add]

/-- An event that disposes of no buffer.  The buffers it brings in are then in the hands of the
caller; one whose segmentation fails has been in its hands, and counts as taken away. -/
theorem balance_log_none {e : Event K D C} (h : placed e = none) :
    Balance ↑(failed e) ↑(made e) s (s.log e) := by
  intro x
  have hholds : holds (s.log e) x = holds s x := by
    ext π
    simp [holds_log, h]
  rw [hholds, segments_log, failures_log]
  refine (Exchange.refl _ 0).congr ?_
  simp only [Multiset.count_add]
  omega

/-- An event that disposes of a buffer. -/
theorem balance_log_some {e : Event K D C} {π : Place K D C} {y : ℕ} (h : placed e = some (π, y))
    (hmade : made e = []) (hfailed : failed e = []) : Balance {y} 0 s (s.log e) := by
  intro x
  have hholds : holds (s.log e) x = holds s x + Pi.single π (Multiset.count x {y}) := by
    ext π'
    rw [holds_log, h, Pi.add_apply]
    by_cases hπ : π' = π
    · subst hπ
      rw [Pi.single_eq_same, count_singleton]
      simp [List.count_cons]
    · simp [hπ, Ne.symm hπ]
  rw [hholds, segments_log, hmade, failures_log, hfailed]
  refine (Exchange.put _ _ _).congr ?_
  simp only [Multiset.coe_nil, add_zero, Multiset.count_zero]
  omega

/-! ### Queues -/

/-- One queue holds the buffer `m` times more. -/
theorem holds_add {r : RlId K D} {c : C} {x m : ℕ}
    (hself : (ptrs (s'.q r c).list).count x = (ptrs (s.q r c).list).count x + m)
    (hother : ∀ r' c', (r', c') ≠ (r, c) → (s'.q r' c').list = (s.q r' c').list)
    (htrace : s'.trace = s.trace) : holds s' x = holds s x + Pi.single (.queue r c) m := by
  ext π
  rw [Pi.add_apply]
  unfold holds
  rw [htrace]
  cases π with
  | queue r' c' =>
    by_cases hx : (r', c') = (r, c)
    · obtain ⟨rfl, rfl⟩ := Prod.mk.inj hx
      rw [Pi.single_eq_same]
      simp only [queued, hself]
      omega
    · have hne : (Place.queue r' c' : Place K D C) ≠ .queue r c := by simpa using hx
      rw [Pi.single_eq_of_ne hne]
      simp only [queued, hother r' c' hx, Nat.add_zero]
  | driver => simp [queued]
  | freed => simp [queued]

/-- A packet is put behind a queue. -/
theorem balance_queueTail (r : RlId K D) (c : C) (skb : Skb) :
    Balance {skb.ptr} 0 s (queueTail r c skb s) := by
  intro x
  have hholds : holds (queueTail r c skb s) x
      = holds s x + Pi.single (.queue r c) (Multiset.count x {skb.ptr}) := by
    refine holds_add ?_ (fun r' c' hne => ?_) rfl
    · rw [queueTail, TxState.q_modifyQ_self, count_singleton, ptrs, List.map_append,
        List.count_append]
      rfl
    · rw [queueTail, TxState.q_modifyQ_of_ne _ _ hne]
  rw [hholds]
  refine (Exchange.put _ _ _).congr ?_
  show _ + (0 + _ + (failures s).count x) = _ + (segments s).count x + (failures s).count x + 0
  omega

/-- The packet at the head of a queue is taken. -/
theorem balance_skbDequeue {r : RlId K D} {c : C} {pkt : Skb} {rest : List Skb}
    (hlist : (s.q r c).list = pkt :: rest) : Balance 0 {pkt.ptr} s (skbDequeue r c s) := by
  intro x
  have hholds : holds s x
      = holds (skbDequeue r c s) x + Pi.single (.queue r c) (Multiset.count x {pkt.ptr}) := by
    refine holds_add ?_ (fun r' c' hne => ?_) rfl
    · rw [q_skbDequeue_self, hlist, count_singleton, ptrs, List.map_cons, ← List.singleton_append,
        List.count_append, Nat.add_comm]
      rfl
    · rw [q_skbDequeue_of_ne _ hne]
  rw [hholds]
  refine (Exchange.take _ _ _).congr ?_
  show 0 + (_ + (segments s).count x + (failures s).count x)
    = 0 + (segments s).count x + (failures s).count x + _
  omega

/-! ### Enqueueing -/

theorem balance_appendWhole (p : Params) (r : RlId K D) (c : C) (pkt : Skb) :
    Balance {pkt.ptr} 0 s (appendWhole p r c pkt s) := by
  unfold appendWhole
  cases r with
  | txc t =>
    dsimp only
    split_ifs
    · exact balance_queueTail _ _ (pkt.changeDsfield 0 0x3)
    · exact balance_queueTail _ _ pkt
  | dest t d => exact balance_queueTail _ _ pkt

theorem balance_appendSegments (p : Params) (r : RlId K D) (c : C) (segs : List Skb) :
    Balance ↑(ptrs segs) 0 s (segs.foldl (appendSegment p r c) s) := by
  induction segs generalizing s with
  | nil => exact .refl s
  | cons skb segs ih =>
    have hone : Balance {skb.ptr} 0 s (appendSegment p r c s skb) := by
      unfold appendSegment
      split_ifs
      · exact balance_queueTail r c skb
      · exact balance_log_some rfl rfl rfl
    rw [List.foldl_cons]
    exact hone.trans ih

/-- What the caller loses by a verdict: a packet that is refused or passed stays with it. -/
def takenOver (x : ℕ) : IsoVerdict → Multiset ℕ
  | .drop => 0
  | .pass => 0
  | .success => {x}
  | .error => {x}

theorem balance_isoRlEnqueue (p : Params) (k : Kernel) (r : RlId K D) (pkt : Skb) (c : C)
    (s : TxState K D C) :
    Balance (takenOver pkt.ptr (isoRlEnqueue p k r pkt c s).1) 0 s
      (isoRlEnqueue p k r pkt c s).2 := by
  have hclock : Balance 0 0 s (isoRlClock p k r s) :=
    .of_same (fun _ _ => by rw [q_isoRlClock]) (trace_isoRlClock ..)
  have haccept : ∀ s : TxState K D C, Balance 0 0 s (s.log (.accept r c pkt)) :=
    fun _ => balance_log_none rfl
  unfold isoRlEnqueue
  dsimp only
  split_ifs with hsmall hfull hdrop
  · exact hclock
  · have htrim : ∀ s : TxState K D C, Balance 0 0 s (s.log (.trim r c pkt)) :=
      fun _ => balance_log_none rfl
    exact ((hclock.trans (haccept _)).trans (htrim _)).trans
      (balance_appendWhole p r c (pkt.trim _))
  · exact (hclock.trans (haccept _)).trans (balance_appendWhole p r c pkt)
  · cases hgso : k.skbGsoSegment pkt with
    | none =>
      have hfail : ∀ s : TxState K D C, Balance {pkt.ptr} 0 s (s.log (.gsoSegment r c pkt none)) :=
        fun _ => balance_log_none rfl
      exact hclock.trans (hfail _)
    | some segs =>
      have hmade : ∀ s : TxState K D C, Balance 0 ↑(ptrs segs) s
          (s.log (.gsoSegment r c pkt (some segs))) := fun _ => balance_log_none rfl
      have hfree : ∀ s : TxState K D C, Balance {pkt.ptr} 0 s (s.log (.kfree .segmented pkt)) :=
        fun _ => balance_log_some rfl rfl rfl
      -- the segments come in with the call, and the loop puts each of them somewhere
      refine Balance.cancel ↑(ptrs segs) ?_
      have hall := (((hclock.trans (haccept _)).trans (hmade _)).trans (hfree _)).trans
        (balance_appendSegments p r c segs)
      simpa [takenOver] using hall

/-- A queue that has room for a packet takes it over. -/
theorem takenOver_of_room {p : Params} {k : Kernel} {r : RlId K D} {pkt : Skb} {c : C}
    (hroom : isoRlHasSpaceFor p r pkt c s) (x : ℕ) :
    takenOver x (isoRlEnqueue p k r pkt c s).1 = {x} := by
  have hfits : ¬ u64 ((s.q r c).bytesEnqueued + pkt.size) > p.isoMaxQueueLenBytes := by
    have := of_decide_eq_true hroom
    omega
  unfold isoRlEnqueue
  simp only [q_isoRlClock, hfits, ↓reduceIte]
  split_ifs
  · rfl
  · cases k.skbGsoSegment pkt <;> rfl

/-! ### Dequeueing -/

/-- Work on a queue that leaves its packets alone. -/
theorem balance_modifyQ (r : RlId K D) (c : C) {f : Queue → Queue} (hf : ∀ q, (f q).list = q.list) :
    Balance 0 0 s (s.modifyQ r c f) := by
  refine .of_same (fun r' c' => ?_) rfl
  by_cases hx : (r', c') = (r, c)
  · obtain ⟨rfl, rfl⟩ := Prod.mk.inj hx
    rw [TxState.q_modifyQ_self, hf]
  · rw [TxState.q_modifyQ_of_ne _ _ hx]

/-- Work on a limiter that leaves its queues alone. -/
theorem balance_modifyRl (r : RlId K D) {f : Rl C → Rl C} (hf : ∀ l, (f l).queue = l.queue) :
    Balance 0 0 s (s.modifyRl r f) := by
  refine .of_same (fun r' c' => ?_) rfl
  by_cases hr : r' = r
  · subst hr
    rw [TxState.q_modifyRl_self, hf]
    rfl
  · rw [TxState.q_modifyRl_of_ne _ _ _ hr]

theorem balance_charge (r : RlId K D) (c : C) (n : ℕ) : Balance 0 0 s (charge r c n s) := by
  have hlog : Balance 0 0 s
      (s.log (.charge r c n (s.q r c).tokens (s.q r c).bytesEnqueued)) := balance_log_none rfl
  have hcharge : Balance 0 0 _ (charge r c n s) := balance_modifyQ r c (by intro _; rfl)
  exact hlog.trans hcharge

/-- A packet leaves its queue for the driver or for the class-level queue. -/
theorem balance_forward {p : Params} {k : Kernel} {r : RlId K D} {c : C} {pkt : Skb}
    {rest : List Skb} (hlist : (s.q r c).list = pkt :: rest) (h : forward p k r c pkt s = some s') :
    Balance 0 0 s s' := by
  have htake := balance_skbDequeue hlist
  refine Balance.cancel {pkt.ptr} ?_
  unfold forward at h
  cases r with
  | txc t =>
    obtain rfl := Option.some.inj h
    have hxmit : Balance {pkt.ptr} 0 _ ((skbDequeue (.txc t) c s).log (.xmit c pkt)) :=
      balance_log_some rfl rfl rfl
    have hcb : ∀ s : TxState K D C, Balance 0 0 s
        (s.modifyCb c fun cb => { cb with txBytes := cb.txBytes + pkt.size }) :=
      fun _ => .of_same (fun _ _ => rfl) rfl
    exact ((htake.trans hxmit).trans (balance_charge _ _ _)).trans (hcb _)
  | dest t d =>
    dsimp only at h
    split_ifs at h with hroom
    obtain rfl := Option.some.inj h
    -- taking the packet has not changed the room in the class-level queue
    have hroom' : isoRlHasSpaceFor p (.txc t) pkt c (skbDequeue (.dest t d) c s) := by
      unfold isoRlHasSpaceFor
      rwa [q_skbDequeue_of_ne s (show (RlId.txc t, c) ≠ (RlId.dest t d, c) by simp)]
    have hput := balance_isoRlEnqueue p k (.txc t) pkt c (skbDequeue (.dest t d) c s)
    rw [takenOver_of_room hroom'] at hput
    exact (htake.trans hput).trans (balance_charge _ _ _)

/-- Whatever the limiters do by themselves, they neither gain nor lose a buffer. -/
theorem balance_inner {p : Params} {k : Kernel} (h : Inner p k s s') : Balance 0 0 s s' := by
  cases h with
  | clock r => exact .of_same (fun _ _ => by rw [q_isoRlClock]) (trace_isoRlClock ..)
  | borrow r c hlow =>
    rcases isoRlBorrowTokens_cases p k r c s with hfail | ⟨-, hb⟩
    · rw [hfail]
      exact .of_same (fun _ _ => rfl) rfl
    · refine .of_same (fun r' c' => ?_) hb.trace
      by_cases hx : (r', c') = (r, c)
      · obtain ⟨rfl, rfl⟩ := Prod.mk.inj hx
        rw [hb.self]
      · rw [hb.other r' c' hx]
  | peek r c pkt rest hlist =>
    have hlook : Balance 0 0 s (s.modifyQ r c fun q => { q with firstPktSize := pkt.size }) :=
      balance_modifyQ r c fun _ => rfl
    have hlog : ∀ s : TxState K D C, Balance 0 0 s (s.log (.head r c pkt)) :=
      fun _ => balance_log_none rfl
    exact hlook.trans (hlog _)
  | forward _ r c pkt rest hlist htokens hforward => exact balance_forward hlist hforward
  | schedule _ hrl hbytes htrace hreads =>
    exact .of_same (fun r c => by rw [TxState.q, hrl, TxState.q]) htrace

end

/-! ### Operations -/

section

variable [Fintype C] (p : Params) (k : Kernel)

theorem balance_isoTx (route : Option (K × D)) (skb : Skb) (c : C) (s : TxState K D C) :
    Balance (takenOver skb.ptr (isoTx p k route skb c s).1) 0 s (isoTx p k route skb c s).2 := by
  rcases route with - | ⟨t, d⟩
  · exact .refl s
  · have hput := balance_isoRlEnqueue p k (.dest t d) skb.isoEnableEcn c s
    have hdequeue := balance_path (fun _ _ => balance_inner)
      (isoRlDequeue_path (p := p) (k := k) (.dest t d) c
        (isoRlEnqueue p k (.dest t d) skb.isoEnableEcn c s).2)
    have hall := hput.trans hdequeue
    rw [add_zero, add_zero] at hall
    exact hall

/-- The packet given to the qdisc comes in. -/
theorem balance_isoEnqueue (route : Option (K × D)) (skb : Skb) (c : C) (s : TxState K D C) :
    Balance {skb.ptr} 0 s (isoEnqueue p k route skb c s).2 := by
  have hfree : ∀ s : TxState K D C, Balance {skb.ptr} 0 s (s.log (.kfree .noRoom skb)) :=
    fun _ => balance_log_some rfl rfl rfl
  have hxmit : ∀ s : TxState K D C, Balance {skb.ptr} 0 s (s.log (.xmit c skb)) :=
    fun _ => balance_log_some rfl rfl rfl
  unfold isoEnqueue
  split_ifs
  · have htx := balance_isoTx p k route skb c s
    generalize isoTx p k route skb c s = result at htx
    obtain ⟨verdict, s'⟩ := result
    -- whoever has the packet disposes of it, except that nobody does after an error
    cases verdict with
    | drop => simpa [takenOver] using htx.trans (hfree s')
    | pass => simpa [takenOver] using htx.trans (hxmit s')
    | success => exact htx
    | error => exact htx
  · exact hxmit s

/-- An operation brings in the packet it is given and no other. -/
theorem step_balance (s : TxState K D C) (op : Op K D C) :
    Balance op.given 0 s (step p k s op) := by
  -- every operation but an enqueue is one of the limiters, and brings in nothing
  cases op with
  | enqueue route c skb => exact balance_isoEnqueue p k route skb c s
  | dequeue r c => exact balance_path (fun _ _ => balance_inner) (isoRlDequeue_path r c s)
  | feedback t d rate =>
    have hwrite : Balance 0 0 s (s.modifyRl (.dest t d) fun l =>
        { l with rate := u32 rate, lastRateUpdateTime := k.ktime s.reads }) :=
      balance_modifyRl (.dest t d) fun _ => rfl
    exact hwrite
  | classRate t rate =>
    have hwrite : Balance 0 0 s (s.modifyRl (.txc t) fun l => { l with rate := u32 rate }) :=
      balance_modifyRl (.txc t) fun _ => rfl
    exact hwrite
  | timeout c =>
    refine .of_same (fun r c' => ?_) ?_
    all_goals
      unfold step Rl.step isoRlTimeout
      dsimp only
      split_ifs <;> rfl
  | tasklet c => exact balance_path (fun _ _ => balance_inner) (isoRlXmitTasklet_path c s)

/-- So does a run. -/
theorem run_balance (s : TxState K D C) (ops : List (Op K D C)) :
    Balance (ops.map Op.given).sum 0 s (run (step p k) s ops) := by
  induction ops generalizing s with
  | nil => exact .refl s
  | cons op ops ih =>
    rw [run_cons, List.map_cons, List.sum_cons]
    exact (step_balance p k s op).trans (ih (step p k s op))

omit [Fintype C] in
/-- At the beginning no buffer is anywhere. -/
theorem holds_init (t : RlId K D → ℕ) (x : ℕ) :
    holds (TxState.init p t : TxState K D C) x = 0 := by
  ext π
  cases π <;> rfl

/-- In every run, a buffer is somewhere as often as it has come in, but for the times its
segmentation failed. -/
theorem runFrom_addsUp (t : RlId K D → ℕ) (ops : List (Op K D C)) (x : ℕ) :
    ∃ n, AddsUp (holds (runFrom p k t ops) x) n ∧
      n + (failures (runFrom p k t ops)).count x = (arrived ops (runFrom p k t ops)).count x := by
  have hstart : AddsUp (holds (TxState.init p t : TxState K D C) x) 0 := by
    rw [holds_init]
    exact addsUp_zero
  obtain ⟨n, hn, hsum⟩ := run_balance p k (TxState.init p t) ops x 0 hstart
  refine ⟨n, hn, ?_⟩
  have hmade : (segments (TxState.init p t : TxState K D C)).count x = 0 := rfl
  have hfailed : (failures (TxState.init p t : TxState K D C)).count x = 0 := rfl
  rw [hmade, hfailed, Multiset.count_zero] at hsum
  rw [arrived, Multiset.count_add, runFrom]
  omega

/-! ### Every packet is accounted for -/

omit [DecidableEq K] [DecidableEq D] [DecidableEq C] [Fintype C] in
theorem mem_failures_iff {s : TxState K D C} {x : ℕ} :
    x ∈ failures s ↔ ∃ r c skb, Event.gsoSegment r c skb none ∈ s.trace ∧ skb.ptr = x := by
  unfold failures
  rw [Multiset.mem_coe, List.mem_flatMap]
  constructor
  · rintro ⟨e, he, hx⟩
    cases e with
    | gsoSegment r c skb segs =>
      cases segs with
      | none => exact ⟨r, c, skb, he, (List.mem_singleton.1 hx).symm⟩
      | some segs => exact absurd hx List.not_mem_nil
    | accept | trim | kfree | head | charge | xmit => exact absurd hx List.not_mem_nil
  · rintro ⟨r, c, skb, he, rfl⟩
    exact ⟨_, he, List.mem_singleton_self _⟩

/-- A buffer that has come in once is at no place once its segmentation has failed: neither
`iso_enqueue` nor `iso_rl_dequeue` frees it. -/
theorem not_accounted_of_mem_failures {t : RlId K D → ℕ} {ops : List (Op K D C)} {x : ℕ}
    (hcount : (arrived ops (runFrom p k t ops)).count x ≤ 1)
    (hx : x ∈ failures (runFrom p k t ops)) : ¬ Accounted (runFrom p k t ops) x := by
  rintro ⟨π, hone, -⟩
  obtain ⟨n, hn, hsum⟩ := runFrom_addsUp p k t ops x
  have hle := hn.le π
  have hpos := Multiset.count_pos.2 hx
  omega

/-- If no two buffers of the run have the same address, then every buffer that the qdisc was given
or that was made by segmentation is in exactly one queue, with the driver or freed, as long as no
segmentation has failed, and only then. -/
theorem runFrom_accounted_iff_segmented (t : RlId K D → ℕ) (ops : List (Op K D C))
    (hnodup : (arrived ops (runFrom p k t ops)).Nodup) :
    (∀ x ∈ arrived ops (runFrom p k t ops), Accounted (runFrom p k t ops) x) ↔
      Segmented (runFrom p k t ops).trace := by
  constructor
  · intro hall r c skb hmem
    have hfailed : skb.ptr ∈ failures (runFrom p k t ops) :=
      mem_failures_iff.2 ⟨r, c, skb, hmem, rfl⟩
    -- a packet that was to be segmented has come in
    have hin : skb.ptr ∈ arrived ops (runFrom p k t ops) := by
      obtain ⟨n, -, hsum⟩ := runFrom_addsUp p k t ops skb.ptr
      have hpos := Multiset.count_pos.2 hfailed
      exact Multiset.count_pos.1 (by omega)
    exact not_accounted_of_mem_failures p k (Multiset.nodup_iff_count_le_one.1 hnodup _) hfailed
      (hall _ hin)
  · intro hseg x hx
    obtain ⟨n, hn, hsum⟩ := runFrom_addsUp p k t ops x
    have hnone : (failures (runFrom p k t ops)).count x = 0 := by
      refine Multiset.count_eq_zero.2 fun hmem => ?_
      obtain ⟨r, c, skb, he, -⟩ := mem_failures_iff.1 hmem
      exact hseg r c skb he
    rw [hnone, Multiset.count_eq_one_of_mem hnodup hx] at hsum
    obtain rfl : n = 1 := hsum
    exact hn.exists_unique

end

/-- A long packet for a destination at 500 Mbit/s, and one for a destination that is not known. -/
def twoPackets : List (Op Unit Unit Unit) :=
  [.enqueue (some ((), ())) () (.datagram 1 12000 1 2 6 0 0),
    .enqueue none () (.datagram 10 1000 1 2 6 0 0)]

/-- The first is split and freed; it, its two halves and the second are each at one place. -/
theorem runFrom_accounted_twoPackets :
    arrived twoPackets (runFrom { isoRfairInitial := 500 } halvingKernel (fun _ => 0) twoPackets)
      = {1, 10, 2, 3} ∧
    ∀ x ∈ arrived twoPackets
        (runFrom { isoRfairInitial := 500 } halvingKernel (fun _ => 0) twoPackets),
      Accounted (runFrom { isoRfairInitial := 500 } halvingKernel (fun _ => 0) twoPackets) x := by
  have harrived : arrived twoPackets
      (runFrom { isoRfairInitial := 500 } halvingKernel (fun _ => 0) twoPackets)
      = {1, 10, 2, 3} := by
    decide +kernel
  have hgso : ∀ ev ∈ (runFrom { isoRfairInitial := 500 } halvingKernel (fun _ => 0)
      twoPackets).trace,
      (match ev with | .gsoSegment _ _ _ segs => segs.isSome | _ => true) = true := by
    decide +kernel
  refine ⟨harrived, (runFrom_accounted_iff_segmented { isoRfairInitial := 500 } halvingKernel
    (fun _ => 0) twoPackets ?_).mpr fun r c skb hmem => ?_⟩
  · rw [harrived]
    decide
  · exact absurd (hgso _ hmem) Bool.false_ne_true

/-- When segmentation fails on arrival, as it always does here, `iso_enqueue` reports success and
the packet is nowhere. -/
theorem runFrom_not_accounted_failedSegment :
    1 ∈ arrived twoPackets
      (runFrom { isoRfairInitial := 500 } Kernel.steady (fun _ => 0) twoPackets) ∧
    (isoEnqueue { isoRfairInitial := 500 } Kernel.steady (some ((), ()))
      (.datagram 1 12000 1 2 6 0 0) ()
      (TxState.init { isoRfairInitial := 500 } fun _ => 0)).1 = .success ∧
    ¬ Accounted (runFrom { isoRfairInitial := 500 } Kernel.steady (fun _ => 0) twoPackets) 1 := by
  refine ⟨by decide +kernel, by decide +kernel, ?_⟩
  exact not_accounted_of_mem_failures _ _ (by decide +kernel) (by decide +kernel)

end EyeQ.Qdisc
