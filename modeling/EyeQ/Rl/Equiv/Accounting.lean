import EyeQ.Rl.Equiv.Move
import EyeQ.Sum.Basic
import Mathlib.Algebra.BigOperators.Group.Finset.Sigma

/-!
# Byte accounting

The counters of the two levels agree.  A control block has counted the bytes its class-level queues
have sent (`Balanced.sent`), and what the destinations of a class have passed on is what the
class-level queue has sent and still holds (`Balanced.passed`).  The second needs that the packet
which is charged at one level is the packet which is counted at the other.  So it holds as long as
`iso_rl_enqueue` has not replaced a packet of the class-level queue by its segments: a segment has
a header of its own, and one for which there is no room is freed.

No counter wraps when a queue is charged (`Balanced.charges`).
-/

namespace EyeQ.Rl

variable {K D C : Type} [DecidableEq K] [DecidableEq D] [DecidableEq C] [Fintype K] [Fintype D]

/-- The accounts of a state. -/
structure Balanced (s : TxState K D C) : Prop where
  charges : ∀ r c size tokens bytes, Event.charge r c size tokens bytes ∈ s.trace →
    size ≤ tokens ∧ size ≤ bytes
  sent : ∀ c, (s.cb c).txBytes = ∑ t, (s.q (.txc t) c).load.xmit
  passed : ∀ t c, (∀ skb segs, Event.gsoSegment (.txc t) c skb segs ∉ s.trace) →
    ∑ d, (s.q (.dest t d) c).load.xmit
      = (s.q (.txc t) c).load.xmit + (s.q (.txc t) c).load.bytes

/-! ### Where an enqueue shows in the history -/

section

variable {p : Params} {k : Kernel} {r : RlId K D} {c : C} {pkt : Skb} {bytes : ℕ} {v : IsoVerdict}
  {added : List Skb} {evs : List (Event K D C)}

omit [DecidableEq K] [DecidableEq D] [DecidableEq C] [Fintype K] [Fintype D] in
/-- A packet that is not segmented, and for which there is room, is added whole. -/
theorem Outcome.sum_added (hout : Outcome p k r c pkt bytes v added evs)
    (hroom : bytes + pkt.size ≤ p.isoMaxQueueLenBytes)
    (hgso : ∀ skb segs, Event.gsoSegment r c skb segs ∉ evs) :
    (added.map Skb.size).sum = pkt.size := by
  cases hout with
  | drop hfull => omega -- there was room
  | error _ => exact absurd (List.mem_singleton_self _) (hgso pkt none)
  | whole pkt' htag _ => simp [Skb.size_eq_of_tag htag]
  | split segs kept freed _ _ _ _ => exact absurd (by simp) (hgso pkt (some segs))

end

/-! ### Moves -/

variable {p : Params} {k : Kernel} {s s' : TxState K D C}

omit [DecidableEq K] [DecidableEq D] in
theorem Move.charges (hocc : Occupied p s) (hm : Move p k s s') (h : Balanced s) :
    ∀ r c size tokens bytes, Event.charge r c size tokens bytes ∈ s'.trace →
      size ≤ tokens ∧ size ≤ bytes := by
  intro r' c' size tokens bytes hmem
  cases hm with
  | idle evs hevs hload htx htrace =>
    rw [htrace, List.mem_append] at hmem
    rcases hmem with hmem | hmem
    · exact h.charges _ _ _ _ _ hmem
    · obtain ⟨_, _, _, he⟩ := hevs _ hmem
      exact absurd he (by simp)
  | arrive t d c pkt v added evs hout hself hother htx htrace =>
    rw [htrace, List.mem_append] at hmem
    rcases hmem with hmem | hmem
    · exact h.charges _ _ _ _ _ hmem
    · exact absurd hmem hout.not_charge
  | pass t d c pkt rest v added evs hlist htokens hroom hout hself hclass hother htx htrace =>
    rw [htrace, List.mem_append, List.mem_append, List.mem_singleton] at hmem
    rcases hmem with (hmem | hmem) | hmem
    · exact h.charges _ _ _ _ _ hmem
    · exact absurd hmem hout.not_charge
    · cases hmem
      exact ⟨htokens, (hocc _ _).le_bytes hlist⟩
  | transmit t c pkt rest hlist htokens hself hother htx htrace =>
    rw [htrace, List.mem_append, List.mem_pair] at hmem
    rcases hmem with hmem | hmem | hmem
    · exact h.charges _ _ _ _ _ hmem
    · exact absurd hmem (by simp)
    · cases hmem
      exact ⟨htokens, (hocc _ _).le_bytes hlist⟩

omit [DecidableEq D] in
theorem Move.sent (hm : Move p k s s') (h : Balanced s) :
    ∀ c, (s'.cb c).txBytes = ∑ t, (s'.q (.txc t) c).load.xmit := by
  intro c'
  -- a move that leaves `bytes_xmit` of the class-level queues alone
  have hsame : (∀ c, (s'.cb c).txBytes = (s.cb c).txBytes) →
      (∀ t, (s'.q (.txc t) c').load.xmit = (s.q (.txc t) c').load.xmit) →
      (s'.cb c').txBytes = ∑ t, (s'.q (.txc t) c').load.xmit := by
    intro htx hxmit
    rw [htx, h.sent c', Finset.sum_congr rfl fun t _ => hxmit t]
  cases hm with
  | idle evs hevs hload htx htrace => exact hsame htx fun t => by rw [hload]
  | arrive t d c pkt v added evs hout hself hother htx htrace =>
    exact hsame htx fun t' => by rw [hother _ _ (by simp)]
  | pass t d c pkt rest v added evs hlist htokens hroom hout hself hclass hother htx htrace =>
    refine hsame htx fun t' => ?_
    by_cases hx : t' = t ∧ c' = c
    · obtain ⟨rfl, rfl⟩ := hx
      rw [hclass]
      rfl
    · rw [hother _ _ (by simp) (by simpa using hx)]
  | transmit t c pkt rest hlist htokens hself hother htx htrace =>
    rw [htx, h.sent c']
    by_cases hc : c' = c
    · subst hc
      rw [if_pos rfl]
      refine (sum_add_of_eq_off (a := t) ?_ fun t' ht => ?_).symm
      · rw [hself]
        rfl
      · rw [hother _ _ (by simpa using ht)]
    · rw [if_neg hc, Nat.add_zero]
      exact Finset.sum_congr rfl fun t' _ => by rw [hother _ _ (by simp [hc])]

theorem Move.passed (hocc : Occupied p s) (hm : Move p k s s') (h : Balanced s) :
    ∀ t c, (∀ skb segs, Event.gsoSegment (.txc t) c skb segs ∉ s'.trace) →
      ∑ d, (s'.q (.dest t d) c).load.xmit
        = (s'.q (.txc t) c).load.xmit + (s'.q (.txc t) c).load.bytes := by
  intro t' c' hgso
  -- the history only grows
  have hold : ∀ {evs}, s'.trace = s.trace ++ evs →
      ∑ d, (s.q (.dest t' d) c').load.xmit
        = (s.q (.txc t') c').load.xmit + (s.q (.txc t') c').load.bytes := by
    intro evs htrace
    refine h.passed t' c' fun skb segs hmem => hgso skb segs ?_
    rw [htrace]
    exact List.mem_append_left _ hmem
  cases hm with
  | idle evs hevs hload htx htrace =>
    rw [hload, Finset.sum_congr rfl fun d _ => by rw [hload]]
    exact hold htrace
  | arrive t d c pkt v added evs hout hself hother htx htrace =>
    rw [hother _ _ (by simp), ← hold htrace]
    refine Finset.sum_congr rfl fun d' _ => ?_
    by_cases hx : (t' = t ∧ d' = d) ∧ c' = c
    · obtain ⟨⟨rfl, rfl⟩, rfl⟩ := hx
      rw [hself]
      rfl
    · rw [hother _ _ (by simpa using hx)]
  | pass t d c pkt rest v added evs hlist htokens hroom hout hself hclass hother htx htrace =>
    rw [List.append_assoc] at htrace
    have hbefore := hold htrace
    by_cases hx : t' = t ∧ c' = c
    · -- the destination is charged what the class-level queue receives
      obtain ⟨rfl, rfl⟩ := hx
      have hsum := hout.sum_added hroom.le fun skb segs hmem => hgso skb segs (by
        rw [htrace]
        exact List.mem_append_right _ (List.mem_append_left _ hmem))
      have hdest : ∑ d', (s'.q (.dest t' d') c').load.xmit
          = ∑ d', (s.q (.dest t' d') c').load.xmit + pkt.size := by
        refine sum_add_of_eq_off (a := d) ?_ fun d' hd => ?_
        · rw [hself]
          rfl
        · rw [hother _ _ (by simpa using hd) (by simp)]
      rw [hdest, hbefore, hclass]
      show _ + _ + pkt.size = _ + (_ + (added.map Skb.size).sum)
      rw [hsum, Nat.add_assoc]
      rfl
    · rw [hother _ _ (by simp) (by simpa using hx), ← hbefore]
      refine Finset.sum_congr rfl fun d' _ => ?_
      rw [hother _ _ (fun hd => hx ?_) (by simp)]
      obtain ⟨hr, hc⟩ := Prod.mk.inj hd
      exact ⟨(RlId.dest.inj hr).1, hc⟩
  | transmit t c pkt rest hlist htokens hself hother htx htrace =>
    -- what leaves the class-level queue is counted as sent instead of held
    rw [Finset.sum_congr rfl fun d _ => by rw [hother _ _ (by simp)], hold htrace]
    by_cases hx : t' = t ∧ c' = c
    · obtain ⟨rfl, rfl⟩ := hx
      have hle := (hocc (.txc t') c').le_bytes hlist
      rw [hself]
      show _ = _ + pkt.size + (_ - pkt.size)
      omega
    · rw [hother _ _ (by simpa using hx)]

/-- Moves keep the accounts. -/
theorem Move.balanced (hocc : Occupied p s) (hm : Move p k s s') (h : Balanced s) : Balanced s' :=
  ⟨hm.charges hocc h, hm.sent h, hm.passed hocc h⟩

/-! ### Runs -/

variable [Fintype C]

theorem runFrom_balanced (p : Params) (k : Kernel) (t : RlId K D → ℕ) (ops : List (Op K D C)) :
    Balanced (runFrom p k t ops) := by
  refine runFrom_move_invariant (k := k) ?_ (fun _ _ hocc hm h => hm.balanced hocc h) ops
  refine ⟨fun _ _ _ _ _ hmem => absurd hmem List.not_mem_nil, fun c => ?_, fun t c _ => ?_⟩
  · show 0 = ∑ _t : K, 0
    rw [Finset.sum_const_zero]
  · show ∑ _d : D, 0 = 0
    rw [Finset.sum_const_zero]

/-! ### The counters of the source -/

/-- The sizes that the queue was charged, in order. -/
def chargedTo (r : RlId K D) (c : C) (trace : List (Event K D C)) : List ℕ :=
  trace.filterMap fun
    | .charge r' c' size _ _ => if (r, c) = (r', c') then some size else none
    | _ => none

/-- The sizes of the packets that the CPU has given to the device, in order. -/
def sentBy (c : C) (trace : List (Event K D C)) : List ℕ :=
  trace.filterMap fun
    | .xmit c' skb => if c = c' then some skb.size else none
    | _ => none

/-- The totals are what the history says. -/
structure Counted (s : TxState K D C) : Prop where
  queue : ∀ r c, (s.q r c).load.xmit = (chargedTo r c s.trace).sum
  cb : ∀ c, (s.cb c).txBytes = (sentBy c s.trace).sum

omit [Fintype K] [Fintype D] [Fintype C] in
theorem chargedTo_eq_nil {r : RlId K D} {c : C} {evs : List (Event K D C)}
    (h : ∀ r c size tokens bytes, Event.charge r c size tokens bytes ∉ evs) :
    chargedTo r c evs = [] := by
  rw [chargedTo, List.filterMap_eq_nil_iff]
  intro e he
  cases e with
  | charge r' c' size tokens bytes => exact absurd he (h _ _ _ _ _)
  | _ => rfl

omit [DecidableEq K] [DecidableEq D] [Fintype K] [Fintype D] [Fintype C] in
theorem sentBy_eq_nil {c : C} {evs : List (Event K D C)} (h : ∀ c skb, Event.xmit c skb ∉ evs) :
    sentBy c evs = [] := by
  rw [sentBy, List.filterMap_eq_nil_iff]
  intro e he
  cases e with
  | xmit c' skb => exact absurd he (h _ _)
  | _ => rfl

omit [Fintype K] [Fintype D] [Fintype C] in
theorem chargedTo_append (r : RlId K D) (c : C) (l l' : List (Event K D C)) :
    chargedTo r c (l ++ l') = chargedTo r c l ++ chargedTo r c l' := List.filterMap_append

omit [DecidableEq K] [DecidableEq D] [Fintype K] [Fintype D] [Fintype C] in
theorem sentBy_append (c : C) (l l' : List (Event K D C)) :
    sentBy c (l ++ l') = sentBy c l ++ sentBy c l' := List.filterMap_append

omit [Fintype K] [Fintype D] [Fintype C] in
theorem chargedTo_charge (r r' : RlId K D) (c c' : C) (size tokens bytes : ℕ) :
    chargedTo r c [Event.charge r' c' size tokens bytes] =
      if (r, c) = (r', c') then [size] else [] := by
  by_cases hx : (r, c) = (r', c')
  · simp only [chargedTo, List.filterMap_cons, if_pos hx, List.filterMap_nil]
  · simp only [chargedTo, List.filterMap_cons, if_neg hx, List.filterMap_nil]

omit [DecidableEq K] [DecidableEq D] [Fintype K] [Fintype D] [Fintype C] in
/-- Events that hand nothing to the device change no counter of a CPU. -/
theorem sum_sentBy_append {c : C} {l evs : List (Event K D C)}
    (h : ∀ c skb, Event.xmit c skb ∉ evs) : (sentBy c (l ++ evs)).sum = (sentBy c l).sum := by
  rw [sentBy_append, sentBy_eq_nil h, List.append_nil]

omit [Fintype K] [Fintype D] [Fintype C] in
/-- Events that charge nothing change no counter of a queue. -/
theorem sum_chargedTo_append {r : RlId K D} {c : C} {l evs : List (Event K D C)}
    (h : ∀ r c size tokens bytes, Event.charge r c size tokens bytes ∉ evs) :
    (chargedTo r c (l ++ evs)).sum = (chargedTo r c l).sum := by
  rw [chargedTo_append, chargedTo_eq_nil h, List.append_nil]

omit [Fintype K] [Fintype D] [Fintype C] in
theorem Move.counted_queue (hm : Move p k s s') (h : Counted s) (r : RlId K D) (c' : C) :
    (s'.q r c').load.xmit = (chargedTo r c' s'.trace).sum := by
  cases hm with
  | idle evs hevs hload htx htrace =>
    rw [hload, h.queue, htrace, sum_chargedTo_append]
    intro r c size tokens bytes hmem
    obtain ⟨_, _, _, he⟩ := hevs _ hmem
    cases he
  | arrive t d c pkt v added evs hout hself hother htx htrace =>
    rw [htrace, sum_chargedTo_append fun _ _ _ _ _ => hout.not_charge, ← h.queue]
    by_cases hx : (r, c') = (.dest t d, c)
    · obtain ⟨rfl, rfl⟩ := Prod.mk.inj hx
      rw [hself]
      rfl
    · rw [hother _ _ hx]
  | pass t d c pkt rest v added evs hlist htokens hroom hout hself hclass hother htx htrace =>
    rw [htrace, chargedTo_append, List.sum_append,
      sum_chargedTo_append fun _ _ _ _ _ => hout.not_charge, chargedTo_charge, ← h.queue]
    by_cases hx : (r, c') = (.dest t d, c)
    · obtain ⟨rfl, rfl⟩ := Prod.mk.inj hx
      rw [hself, if_pos rfl, List.sum_singleton]
      rfl
    · rw [if_neg hx, List.sum_nil, Nat.add_zero]
      -- the class-level queue receives the packet, and is not charged for it
      by_cases hclass' : (r, c') = (.txc t, c)
      · obtain ⟨rfl, rfl⟩ := Prod.mk.inj hclass'
        rw [hclass]
        rfl
      · rw [hother _ _ hx hclass']
  | transmit t c pkt rest hlist htokens hself hother htx htrace =>
    rw [htrace, List.append_cons, chargedTo_append, List.sum_append,
      sum_chargedTo_append (by simp), chargedTo_charge, ← h.queue]
    by_cases hx : (r, c') = (.txc t, c)
    · obtain ⟨rfl, rfl⟩ := Prod.mk.inj hx
      rw [hself, if_pos rfl, List.sum_singleton]
      rfl
    · rw [hother _ _ hx, if_neg hx, List.sum_nil, Nat.add_zero]

omit [Fintype K] [Fintype D] [Fintype C] in
theorem Move.counted_cb (hm : Move p k s s') (h : Counted s) (c' : C) :
    (s'.cb c').txBytes = (sentBy c' s'.trace).sum := by
  cases hm with
  | idle evs hevs hload htx htrace =>
    rw [htx, h.cb, htrace, sum_sentBy_append]
    intro c skb hmem
    obtain ⟨_, _, _, he⟩ := hevs _ hmem
    cases he
  | arrive t d c pkt v added evs hout hself hother htx htrace =>
    rw [htx, h.cb, htrace, sum_sentBy_append fun _ _ => hout.not_xmit]
  | pass t d c pkt rest v added evs hlist htokens hroom hout hself hclass hother htx htrace =>
    rw [htx, h.cb, htrace, sum_sentBy_append (by simp),
      sum_sentBy_append fun _ _ => hout.not_xmit]
  | transmit t c pkt rest hlist htokens hself hother htx htrace =>
    rw [htx, h.cb, htrace, sentBy_append, List.sum_append]
    by_cases hc : c' = c <;> simp [sentBy, hc]

omit [Fintype K] [Fintype D] [Fintype C] in
/-- Moves keep the counters in step with the history. -/
theorem Move.counted (hm : Move p k s s') (h : Counted s) : Counted s' :=
  ⟨hm.counted_queue h, hm.counted_cb h⟩

omit [Fintype K] [Fintype D] in
/-- The `u64` counters of the source, which add these sizes one by one, are the totals modulo
`2^64`. -/
theorem runFrom_counters (p : Params) (k : Kernel) (t : RlId K D → ℕ) (ops : List (Op K D C)) :
    (∀ r c, count64 (chargedTo r c (runFrom p k t ops).trace) =
      u64 ((runFrom p k t ops).q r c).bytesXmit) ∧
    ∀ c, count64 (sentBy c (runFrom p k t ops).trace) = u64 ((runFrom p k t ops).cb c).txBytes := by
  have h : Counted (runFrom p k t ops) :=
    runFrom_move_invariant (k := k) ⟨fun _ _ => rfl, fun _ => rfl⟩
      (fun _ _ _ hm h => hm.counted h) ops
  refine ⟨fun r c => ?_, fun c => ?_⟩
  · rw [count64_eq, ← h.queue]
    rfl
  · rw [count64_eq, ← h.cb]

/-- **Byte accounting.**  After every run: the byte count of every queue is the sum of the sizes of
its packets; no charge took more tokens or more bytes than the queue had; the control blocks have
counted what the class-level queues have sent; and, where no packet was segmented at the class
level, the destinations of a class have passed on what its queue has sent and still holds. -/
theorem runFrom_accounting (p : Params) (k : Kernel) (t : RlId K D → ℕ) (ops : List (Op K D C)) :
    (∀ r c, ((runFrom p k t ops).q r c).bytesEnqueued
      = (((runFrom p k t ops).q r c).list.map Skb.size).sum) ∧
    (∀ r c size tokens bytes,
      Event.charge r c size tokens bytes ∈ (runFrom p k t ops).trace →
        size ≤ tokens ∧ size ≤ bytes) ∧
    ∑ c, ((runFrom p k t ops).cb c).txBytes
      = ∑ t', ∑ c, ((runFrom p k t ops).q (.txc t') c).bytesXmit ∧
    (∀ t' c, (∀ skb segs, Event.gsoSegment (.txc t') c skb segs ∉ (runFrom p k t ops).trace) →
      ∑ d, ((runFrom p k t ops).q (.dest t' d) c).bytesXmit
        = ((runFrom p k t ops).q (.txc t') c).bytesXmit
          + ((runFrom p k t ops).q (.txc t') c).bytesEnqueued) := by
  have hocc := runFrom_occupied p k t ops
  have h := runFrom_balanced p k t ops
  refine ⟨fun r c => (hocc r c).1, h.charges, ?_, h.passed⟩
  rw [Finset.sum_congr rfl fun c _ => h.sent c, Finset.sum_comm]
  rfl

end EyeQ.Rl
