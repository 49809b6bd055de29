import EyeQ.Rl.Equiv.Small

/-!
# The movement of packets

Seen from the packets, a small step is one of four things, the constructors of `Move`: nothing
moves, a packet arrives in a destination's queue, a packet passes from there to the class-level
queue of the same CPU, or a packet leaves a class-level queue for the device.

A queue is seen through its `Load`: its packets, the bytes it believes to hold and the bytes it has
sent.  `Occupied` says that the byte count is right and bounded, so that neither the additions nor
the subtractions of the source wrap; `Small.move` needs it, and every run has it
(`runFrom_occupied`).  `runFrom_move_invariant` is the rule for everything else.
-/

namespace EyeQ.Rl

variable {K D C : Type} [DecidableEq K] [DecidableEq D] [DecidableEq C]

/-! ### The load of a queue -/

/-- What a queue holds and has sent. -/
structure Load where
  list : List Skb
  bytes : ℕ
  xmit : ℕ

namespace Load

/-- The packets `added` are put behind. -/
def add (l : Load) (added : List Skb) : Load :=
  { l with list := l.list ++ added, bytes := l.bytes + (added.map Skb.size).sum }

/-- A packet of size `n` leaves at the head. -/
def remove (l : Load) (n : ℕ) : Load := ⟨l.list.tail, l.bytes - n, l.xmit + n⟩

/-- The byte count is right, and not over the bound. -/
def Ok (p : Params) (l : Load) : Prop :=
  l.bytes = (l.list.map Skb.size).sum ∧ l.bytes ≤ maxBytes p

end Load

/-- The load of a queue. -/
def Queue.load (q : Queue) : Load := ⟨q.list, q.bytesEnqueued, q.bytesXmit⟩

/-- The byte count of every queue is right and bounded. -/
def Occupied (p : Params) (s : TxState K D C) : Prop := ∀ r c, (s.q r c).load.Ok p

theorem Load.Ok.le_bytes {p : Params} {l : Load} (h : l.Ok p) {pkt : Skb} {rest : List Skb}
    (hlist : l.list = pkt :: rest) : pkt.size ≤ l.bytes := by
  rw [h.1, hlist, List.map_cons, List.sum_cons]
  exact Nat.le_add_right _ _

theorem Load.Ok.remove {p : Params} {l : Load} (h : l.Ok p) {pkt : Skb} {rest : List Skb}
    (hlist : l.list = pkt :: rest) : (l.remove pkt.size).Ok p := by
  have hbytes := h.1
  have hle := h.2
  rw [hlist, List.map_cons, List.sum_cons] at hbytes
  refine ⟨?_, ?_⟩
  · show l.bytes - pkt.size = (l.list.tail.map Skb.size).sum
    rw [hlist, List.tail_cons]
    omega
  · show l.bytes - pkt.size ≤ maxBytes p
    omega

omit [DecidableEq K] [DecidableEq D] [DecidableEq C] in
/-- Whatever the outcome of an enqueue, the count stays right and bounded. -/
theorem Load.Ok.add {p : Params} {k : Kernel} {l : Load} (h : l.Ok p) {r : RlId K D} {c : C}
    {pkt : Skb} {v : IsoVerdict} {added : List Skb} {evs : List (Event K D C)}
    (hout : Outcome p k r c pkt l.bytes v added evs) : (l.add added).Ok p := by
  refine ⟨?_, ?_⟩
  · show l.bytes + (added.map Skb.size).sum = ((l.list ++ added).map Skb.size).sum
    rw [List.map_append, List.sum_append, h.1]
  · show l.bytes + (added.map Skb.size).sum ≤ maxBytes p
    have hle := h.2
    cases hout with
    | drop hfull => simpa using hle
    | error hgso => simpa using hle
    | whole pkt' htag hroom =>
      have hsize : pkt'.size = pkt.size := Skb.size_eq_of_tag htag
      simp only [List.map_cons, List.map_nil, List.sum_cons, List.sum_nil, hsize]
      unfold maxBytes
      omega
    | split segs kept freed hgso hsub hall hbytes =>
      -- only a segment that finds room below the limit is added, so the last one exceeds it by
      -- itself
      by_cases hnil : added = []
      · subst hnil
        simpa using hle
      · exact hbytes hnil

/-! ### Moves -/

/-- A small step, seen from the packets. -/
inductive Move (p : Params) (k : Kernel) (s s' : TxState K D C) : Prop
  /-- Nothing moves; at most the head of a queue is looked at. -/
  | idle (evs : List (Event K D C)) (hevs : ∀ e ∈ evs, ∃ r c pkt, e = .head r c pkt)
      (hload : ∀ r c, (s'.q r c).load = (s.q r c).load)
      (htx : ∀ c, (s'.cb c).txBytes = (s.cb c).txBytes)
      (htrace : s'.trace = s.trace ++ evs)
  /-- A packet arrives in a destination's queue. -/
  | arrive (t : K) (d : D) (c : C) (pkt : Skb) (v : IsoVerdict) (added : List Skb)
      (evs : List (Event K D C))
      (hout : Outcome p k (.dest t d) c pkt (s.q (.dest t d) c).load.bytes v added evs)
      (hself : (s'.q (.dest t d) c).load = (s.q (.dest t d) c).load.add added)
      (hother : ∀ r' c', (r', c') ≠ (.dest t d, c) → (s'.q r' c').load = (s.q r' c').load)
      (htx : ∀ c, (s'.cb c).txBytes = (s.cb c).txBytes)
      (htrace : s'.trace = s.trace ++ evs)
  /-- A packet passes from a destination's queue to the class-level queue. -/
  | pass (t : K) (d : D) (c : C) (pkt : Skb) (rest : List Skb) (v : IsoVerdict) (added : List Skb)
      (evs : List (Event K D C)) (hlist : (s.q (.dest t d) c).list = pkt :: rest)
      (htokens : pkt.size ≤ (s.q (.dest t d) c).tokens)
      (hroom : (s.q (.txc t) c).load.bytes + pkt.size < p.isoMaxQueueLenBytes)
      (hout : Outcome p k (.txc t) c pkt (s.q (.txc t) c).load.bytes v added evs)
      (hself : (s'.q (.dest t d) c).load = (s.q (.dest t d) c).load.remove pkt.size)
      (hclass : (s'.q (.txc t) c).load = (s.q (.txc t) c).load.add added)
      (hother : ∀ r' c', (r', c') ≠ (.dest t d, c) → (r', c') ≠ (.txc t, c) →
        (s'.q r' c').load = (s.q r' c').load)
      (htx : ∀ c, (s'.cb c).txBytes = (s.cb c).txBytes)
      (htrace : s'.trace = s.trace ++ evs ++ [.charge (.dest t d) c pkt.size
        (s.q (.dest t d) c).tokens (s.q (.dest t d) c).bytesEnqueued])
  /-- A packet leaves a class-level queue for the device. -/
  | transmit (t : K) (c : C) (pkt : Skb) (rest : List Skb)
      (hlist : (s.q (.txc t) c).list = pkt :: rest)
      (htokens : pkt.size ≤ (s.q (.txc t) c).tokens)
      (hself : (s'.q (.txc t) c).load = (s.q (.txc t) c).load.remove pkt.size)
      (hother : ∀ r' c', (r', c') ≠ (.txc t, c) → (s'.q r' c').load = (s.q r' c').load)
      (htx : ∀ c', (s'.cb c').txBytes = (s.cb c').txBytes + if c' = c then pkt.size else 0)
      (htrace : s'.trace = s.trace ++ [.xmit c pkt, .charge (.txc t) c pkt.size
        (s.q (.txc t) c).tokens (s.q (.txc t) c).bytesEnqueued])

/-- Nothing has moved; at most the head of a queue was looked at. -/
structure Still (s s' : TxState K D C) : Prop where
  load : ∀ r c, (s'.q r c).load = (s.q r c).load
  txBytes : ∀ c, (s'.cb c).txBytes = (s.cb c).txBytes
  trace : ∃ evs, (∀ e ∈ evs, ∃ r c pkt, e = Event.head r c pkt) ∧ s'.trace = s.trace ++ evs

omit [DecidableEq K] [DecidableEq D] in
theorem Still.move {p : Params} {k : Kernel} {s s' : TxState K D C} (h : Still s s') :
    Move p k s s' := by
  obtain ⟨evs, hevs, htrace⟩ := h.trace
  exact .idle evs hevs h.load h.txBytes htrace

omit [DecidableEq K] [DecidableEq D] [DecidableEq C] in
theorem Still.of_trace_eq {s s' : TxState K D C} (hload : ∀ r c, (s'.q r c).load = (s.q r c).load)
    (htx : ∀ c, (s'.cb c).txBytes = (s.cb c).txBytes) (htrace : s'.trace = s.trace) : Still s s' :=
  ⟨hload, htx, [], fun _ he => absurd he List.not_mem_nil, by rw [htrace, List.append_nil]⟩

omit [DecidableEq K] [DecidableEq D] in
/-- The history only grows. -/
theorem Move.trace_subset {p : Params} {k : Kernel} {s s' : TxState K D C} (h : Move p k s s') :
    s.trace ⊆ s'.trace := by
  cases h with
  | idle evs hevs hload htx htrace => rw [htrace]; exact List.subset_append_left _ _
  | arrive t d c pkt v added evs hout hself hother htx htrace =>
    rw [htrace]; exact List.subset_append_left _ _
  | pass t d c pkt rest v added evs hlist htokens hroom hout hself hclass hother htx htrace =>
    rw [htrace, List.append_assoc]; exact List.subset_append_left _ _
  | transmit t c pkt rest hlist htokens hself hother htx htrace =>
    rw [htrace]; exact List.subset_append_left _ _

/-- Charging a queue removes the bytes of the packet, if it holds them. -/
theorem load_charge_self {p : Params} {r : RlId K D} {c : C} {n : ℕ} {s : TxState K D C} {q : Queue}
    (hq : s.q r c = { q with list := q.list.tail }) (hok : q.load.Ok p) (hle : n ≤ q.load.bytes) :
    ((charge r c n s).q r c).load = q.load.remove n := by
  have hmax := maxBytes_lt p
  have hbytes : q.bytesEnqueued ≤ maxBytes p := hok.2
  rw [q_charge_self, hq]
  show Load.mk q.list.tail (sub64 q.bytesEnqueued n) (q.bytesXmit + n) = _
  rw [sub64_of_le (show n ≤ q.bytesEnqueued from hle) (by omega)]
  rfl

/-! ### Small steps are moves -/

section

variable {p : Params} {k : Kernel} {s s' : TxState K D C}

/-- Enqueueing, seen from the packets. -/
theorem load_isoRlEnqueue (hocc : Occupied p s) (r : RlId K D) (pkt : Skb) (c : C) :
    ∃ added evs,
      Outcome p k r c pkt (s.q r c).load.bytes (isoRlEnqueue p k r pkt c s).1 added evs ∧
      ((isoRlEnqueue p k r pkt c s).2.q r c).load = (s.q r c).load.add added ∧
      (isoRlEnqueue p k r pkt c s).2.trace = s.trace ++ evs := by
  obtain ⟨added, evs, hout, happ⟩ := isoRlEnqueue_spec p k r pkt c s (add_size_lt (hocc r c).2 pkt)
  refine ⟨added, evs, hout, ?_, ?_⟩
  · rw [happ.self, q_isoRlClock]
    rfl
  · rw [happ.trace, trace_isoRlClock]

/-- A packet that is sent passes to the class-level queue or leaves for the device. -/
theorem forward_move (hocc : Occupied p s) (r : RlId K D) (c : C) {pkt : Skb} {rest : List Skb}
    (hlist : (s.q r c).list = pkt :: rest) (htokens : pkt.size ≤ (s.q r c).tokens)
    (hforward : forward p k r c pkt s = some s') : Move p k s s' := by
  have hle : pkt.size ≤ (s.q r c).load.bytes := (hocc r c).le_bytes hlist
  unfold forward at hforward
  cases r with
  | txc t =>
    obtain rfl := Option.some.inj hforward
    refine .transmit t c pkt rest hlist htokens ?_ (fun r' c' hne => ?_) (fun c' => ?_) ?_
    · rw [TxState.q_modifyCb]
      refine load_charge_self ?_ (hocc _ _) hle
      rw [TxState.q_log, q_skbDequeue_self]
    · rw [TxState.q_modifyCb, q_charge_of_ne _ _ hne, TxState.q_log, q_skbDequeue_of_ne _ hne]
    · by_cases hc : c' = c
      · subst hc
        rw [TxState.cb_modifyCb_self, if_pos rfl]
        rfl
      · rw [TxState.cb_modifyCb_of_ne _ _ hc, if_neg hc]
        rfl
    · show (s.trace ++ [_]) ++ [_] = _
      rw [TxState.q_log, q_skbDequeue_self, List.append_assoc]
      rfl
  | dest t d =>
    dsimp only at hforward
    split_ifs at hforward with hspace
    obtain rfl := Option.some.inj hforward
    have hne : (RlId.txc t, c) ≠ (RlId.dest t d, c) := by simp
    have htouch := isoRlEnqueue_touches p k (.txc t) pkt c (skbDequeue (.dest t d) c s)
    -- the class-level queue does not see that the packet has left the destination's queue
    have hparent : (skbDequeue (.dest t d) c s).q (.txc t) c = s.q (.txc t) c :=
      q_skbDequeue_of_ne s hne
    have hmax := maxBytes_lt p
    have hbytes : (s.q (.txc t) c).bytesEnqueued ≤ maxBytes p := (hocc (.txc t) c).2
    have hsize := pkt.size_le
    obtain ⟨added, evs, hout, happ⟩ := isoRlEnqueue_spec p k (.txc t) pkt c
      (skbDequeue (.dest t d) c s) (by rw [hparent]; exact add_size_lt hbytes pkt)
    rw [hparent] at hout
    have hdest : (isoRlEnqueue p k (.txc t) pkt c (skbDequeue (.dest t d) c s)).2.q (.dest t d) c
        = { s.q (.dest t d) c with list := (s.q (.dest t d) c).list.tail } := by
      rw [htouch.q hne.symm, q_skbDequeue_self]
    refine .pass t d c pkt rest _ added evs hlist htokens ?_ hout ?_ ?_ (fun r' c' hd ht => ?_)
      (fun c' => ?_) ?_
    · -- the byte count is bounded, so the sum in `iso_rl_has_space_for` does not wrap
      unfold isoRlHasSpaceFor at hspace
      rw [u64_of_lt (by omega)] at hspace
      exact of_decide_eq_true hspace
    · exact load_charge_self hdest (hocc _ _) hle
    · rw [q_charge_of_ne _ _ hne, happ.self, q_isoRlClock, hparent]
      rfl
    · rw [q_charge_of_ne _ _ hd, htouch.q ht, q_skbDequeue_of_ne _ hd]
    · show ((isoRlEnqueue p k (.txc t) pkt c (skbDequeue (.dest t d) c s)).2.cb c').txBytes = _
      rw [htouch.cb]
      rfl
    · show _ ++ [_] = _
      rw [happ.trace, trace_isoRlClock, hdest]
      rfl

/-- By a small step without a packet from outside, nothing moves or one packet is sent. -/
theorem Inner.still_or_forward (h : Inner p k s s') : Still s s' ∨
    ∃ r c pkt rest, (s.q r c).list = pkt :: rest ∧ pkt.size ≤ (s.q r c).tokens ∧
      Rl.forward p k r c pkt s = some s' := by
  cases h with
  | clock r =>
    exact Or.inl (.of_trace_eq (fun _ _ => by rw [q_isoRlClock]) (fun _ => by rw [cb_isoRlClock])
      (trace_isoRlClock ..))
  | borrow r c hlow =>
    rcases isoRlBorrowTokens_cases p k r c s with hfail | ⟨-, hb⟩
    · rw [hfail]
      exact Or.inl (.of_trace_eq (fun _ _ => rfl) (fun _ => rfl) rfl)
    · refine Or.inl (.of_trace_eq (fun r' c' => ?_) (fun c' => by rw [hb.cb]) hb.trace)
      by_cases hx : (r', c') = (r, c)
      · obtain ⟨rfl, rfl⟩ := Prod.mk.inj hx
        rw [hb.self]
        rfl
      · rw [hb.other r' c' hx]
  | peek r c pkt rest hlist =>
    refine Or.inl ⟨fun r' c' => ?_, fun _ => rfl, [.head r c pkt],
      fun e he => ⟨r, c, pkt, List.mem_singleton.mp he⟩, rfl⟩
    by_cases hx : (r', c') = (r, c)
    · obtain ⟨rfl, rfl⟩ := Prod.mk.inj hx
      rw [q_peek_self]
      rfl
    · rw [q_peek_of_ne _ _ hx]
  | forward _ r c pkt rest hlist htokens hforward =>
    exact Or.inr ⟨r, c, pkt, rest, hlist, htokens, hforward⟩
  | schedule _ hrl hbytes htrace hreads =>
    exact Or.inl (.of_trace_eq (fun r c => by rw [TxState.q, hrl, TxState.q]) hbytes htrace)

theorem Inner.move (hocc : Occupied p s) (h : Inner p k s s') : Move p k s s' := by
  rcases h.still_or_forward with hstill | ⟨r, c, pkt, rest, hlist, htokens, hforward⟩
  · exact hstill.move
  · exact forward_move hocc r c hlist htokens hforward

/-- A small step is a move. -/
theorem Small.move (hocc : Occupied p s) (h : Small p k s s') : Move p k s s' := by
  cases h with
  | inner h => exact h.move hocc
  | enqueue t d c pkt =>
    obtain ⟨added, evs, hout, hself, htrace⟩ := load_isoRlEnqueue (k := k) hocc (.dest t d) pkt c
    have htouch := isoRlEnqueue_touches p k (.dest t d) pkt c s
    refine .arrive t d c pkt _ added evs hout hself (fun r' c' hne => ?_) (fun c' => ?_) htrace
    · rw [htouch.q hne]
    · rw [htouch.cb]

omit [DecidableEq C] in
theorem RateWrite.still (h : RateWrite s s') : Still s s' := by
  obtain ⟨r, rate, time, hrl, hcb, htrace, -⟩ := h
  refine .of_trace_eq (fun r' c => ?_) (fun c => by rw [hcb]) htrace
  rw [TxState.q, hrl]
  by_cases hr : r' = r
  · subst hr
    rw [TxState.rl_modifyRl_self]
    rfl
  · rw [TxState.rl_modifyRl_of_ne _ _ hr]
    rfl

/-- Moves keep the byte counts right and bounded. -/
theorem Move.occupied (hocc : Occupied p s) (h : Move p k s s') : Occupied p s' := by
  intro r' c'
  cases h with
  | idle evs hevs hload htx htrace =>
    rw [hload]
    exact hocc r' c'
  | arrive t d c pkt v added evs hout hself hother htx htrace =>
    by_cases hx : (r', c') = (.dest t d, c)
    · obtain ⟨rfl, rfl⟩ := Prod.mk.inj hx
      rw [hself]
      exact (hocc _ _).add hout
    · rw [hother r' c' hx]
      exact hocc r' c'
  | pass t d c pkt rest v added evs hlist htokens hroom hout hself hclass hother htx htrace =>
    by_cases hx : (r', c') = (.dest t d, c)
    · obtain ⟨rfl, rfl⟩ := Prod.mk.inj hx
      rw [hself]
      exact (hocc _ _).remove hlist
    · by_cases hx' : (r', c') = (.txc t, c)
      · obtain ⟨rfl, rfl⟩ := Prod.mk.inj hx'
        rw [hclass]
        exact (hocc _ _).add hout
      · rw [hother r' c' hx hx']
        exact hocc r' c'
  | transmit t c pkt rest hlist htokens hself hother htx htrace =>
    by_cases hx : (r', c') = (.txc t, c)
    · obtain ⟨rfl, rfl⟩ := Prod.mk.inj hx
      rw [hself]
      exact (hocc _ _).remove hlist
    · rw [hother r' c' hx]
      exact hocc r' c'

end

/-! ### Runs -/

variable [Fintype C]

/-- What moves preserve holds after every run. -/
theorem runFrom_move_invariant {p : Params} {k : Kernel} {P : TxState K D C → Prop}
    {t : RlId K D → ℕ} (hinit : P (TxState.init p t))
    (hmove : ∀ s s', Occupied p s → Move p k s s' → P s → P s') (ops : List (Op K D C)) :
    P (runFrom p k t ops) := by
  have hocc : Occupied p (TxState.init p t : TxState K D C) := fun _ _ => ⟨rfl, Nat.zero_le _⟩
  refine (runFrom_invariant (P := fun s => Occupied p s ∧ P s) (k := k) ⟨hocc, hinit⟩ ?_ ?_ ops).2
  · rintro s s' hsmall ⟨hocc, hs⟩
    have hm := hsmall.move hocc
    exact ⟨hm.occupied hocc, hmove s s' hocc hm hs⟩
  · rintro s s' hwrite ⟨hocc, hs⟩
    have hm : Move p k s s' := hwrite.still.move
    exact ⟨hm.occupied hocc, hmove s s' hocc hm hs⟩

/-- In every run the byte counts are right and bounded. -/
theorem runFrom_occupied (p : Params) (k : Kernel) (t : RlId K D → ℕ) (ops : List (Op K D C)) :
    Occupied p (runFrom p k t ops) :=
  runFrom_move_invariant (k := k) (fun _ _ => ⟨rfl, Nat.zero_le _⟩)
    (fun _ _ hocc hm _ => hm.occupied hocc) ops

end EyeQ.Rl
