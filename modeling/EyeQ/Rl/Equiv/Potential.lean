import EyeQ.Rl.Equiv.Conformance
import EyeQ.Rl.Equiv.Move
import EyeQ.Sum.Finsum
import Mathlib.Data.Set.Finite.Lattice

/-!
# What is left to send

`potential k s` is a measure of the work that the packets in the queues still mean: for each queue
the tokens it lacks for all of its packets, a weight for each packet, and one more if
`first_pkt_size` is not yet the size of the packet at the head.  The weight of a packet in a
destination's queue covers all that it can leave in the class-level queue, whole or in segments.

No small step adds to the potential unless a packet comes in from outside (`Inner.potential_le`),
and a packet that is sent takes from it (`forward_potential_lt`).  For this the numbers of tokens
must not wrap, which they never do (`Solvent`, `runFrom_solvent`).
-/

namespace EyeQ.Rl

open Machine

variable {K D C : Type} [DecidableEq K] [DecidableEq D] [DecidableEq C]

/-! ### Tokens -/

omit [DecidableEq C] in
theorem refill_totalTokens_lt (p : Params) (now : ℕ) (l : Rl C) :
    (refill p now l).totalTokens < 2 ^ 32 := by
  have hcap : (refill p now l).totalTokens ≤ max
      (u32 ((refill p now l).rate * p.isoMaxBurstTimeUs) >>> 3) (u32 p.isoMinBurstBytes) :=
    min_le_left _ _
  have hrate : u32 ((refill p now l).rate * p.isoMaxBurstTimeUs) < 2 ^ 32 :=
    Nat.mod_lt _ (by decide)
  have hmin : u32 p.isoMinBurstBytes < 2 ^ 32 := Nat.mod_lt _ (by decide)
  rw [Nat.shiftRight_eq_div_pow] at hcap
  omega

/-- The meters of a limiter, and its pool. -/
structure Frugal (r : RlId K D) (s : TxState K D C) : Prop where
  total : (s.pool r).totalTokens < 2 ^ 32
  meter : ∀ c, (s.q r c).meter.tokens < 2 ^ 33 ∧ (s.q r c).meter.firstPktSize ≤ maxLen + ethHlen

omit [DecidableEq K] [DecidableEq D] in
/-- One meter changes. -/
theorem Frugal.of_meter {r : RlId K D} {s s' : TxState K D C} (h : Frugal r s)
    (hpool : (s'.pool r).totalTokens < 2 ^ 32) {c : C}
    (hself : (s'.q r c).meter.tokens < 2 ^ 33 ∧ (s'.q r c).meter.firstPktSize ≤ maxLen + ethHlen)
    (hother : ∀ c', c' ≠ c → (s'.q r c').meter = (s.q r c').meter) : Frugal r s' := by
  refine ⟨hpool, fun c' => ?_⟩
  by_cases hc : c' = c
  · subst hc
    exact hself
  · rw [hother c' hc]
    exact h.meter c'

omit [DecidableEq K] [DecidableEq D] in
theorem Turn.frugal {p : Params} {k : Kernel} {r : RlId K D} {s s' : TxState K D C}
    (h : Turn p k r s s') (hs : Frugal r s) : Frugal r s' := by
  cases h with
  | idle hpool hmeter hreads =>
    exact ⟨hpool ▸ hs.total, fun c => by rw [hmeter]; exact hs.meter c⟩
  | refill hpool hmeter hreads =>
    refine ⟨?_, fun c => by rw [hmeter]; exact hs.meter c⟩
    rw [hpool]
    exact refill_totalTokens_lt ..
  | take c hlow hpool hmeter hother hreads =>
    -- a queue borrows only what it lacks for one packet, and then the whole pool
    have hfirst : (s.q r c).firstPktSize ≤ maxLen + ethHlen := (hs.meter c).2
    have htotal := hs.total
    refine hs.of_meter (by rw [hpool]; exact Nat.two_pow_pos 32) ?_ hother
    rw [hmeter]
    refine ⟨?_, hfirst⟩
    have hle := u64_le ((s.q r c).tokens + (s.pool r).totalTokens)
    have hmax : maxLen + ethHlen < 2 ^ 17 := by decide
    dsimp only
    omega
  | look c pkt hhead hpool hmeter hother hreads =>
    refine hs.of_meter (hpool ▸ hs.total) ?_ hother
    rw [hmeter]
    exact ⟨(hs.meter c).1, pkt.size_le⟩
  | pay c n htokens hpool hmeter hother hreads =>
    have hlt : (s.q r c).tokens < 2 ^ 33 := (hs.meter c).1
    refine hs.of_meter (hpool ▸ hs.total) ?_ hother
    rw [hmeter, sub64_of_le htokens (by omega)]
    exact ⟨by dsimp only; omega, (hs.meter c).2⟩

/-- The byte counts are right, and the numbers of tokens small. -/
structure Solvent (p : Params) (s : TxState K D C) : Prop where
  occupied : Occupied p s
  frugal : ∀ r, Frugal r s

theorem Small.solvent {p : Params} {k : Kernel} {s s' : TxState K D C} (h : Small p k s s')
    (hs : Solvent p s) : Solvent p s' :=
  ⟨(h.move hs.occupied).occupied hs.occupied, fun r => (h.turn r).frugal (hs.frugal r)⟩

omit [DecidableEq C] in
theorem RateWrite.solvent [Fintype C] {p : Params} {s s' : TxState K D C} (h : RateWrite s s')
    (hs : Solvent p s) : Solvent p s' := by
  refine ⟨fun r c => ?_, fun r => ?_⟩
  · rw [(RateWrite.rl h r).1]
    exact hs.occupied r c
  · obtain ⟨hq, htotal, -⟩ := RateWrite.rl h r
    refine ⟨htotal ▸ (hs.frugal r).total, fun c => ?_⟩
    rw [hq]
    exact (hs.frugal r).meter c

/-- In every run the numbers of tokens are small. -/
theorem runFrom_solvent [Fintype C] (p : Params) (k : Kernel) (t : RlId K D → ℕ)
    (ops : List (Op K D C)) : Solvent p (runFrom p k t ops) := by
  refine runFrom_invariant (k := k) ?_ (fun _ _ h => h.solvent) (fun _ _ h => h.solvent) ops
  have hstart : (15000 : ℕ) < 2 ^ 32 := by decide
  exact ⟨fun _ _ => ⟨rfl, Nat.zero_le _⟩,
    fun _ => ⟨hstart, fun _ => ⟨Nat.two_pow_pos 33, Nat.zero_le _⟩⟩⟩

/-! ### The potential -/

/-- What a packet adds to the potential of a class-level queue, at most, but for the look at the
head. -/
def classWork (pkt : Skb) : ℕ := pkt.size + 2

/-- What it leaves there when it is passed on: itself or its segments. -/
def passWork (k : Kernel) (pkt : Skb) : ℕ :=
  classWork pkt + (((k.skbGsoSegment pkt).getD []).map classWork).sum

/-- The weight of a packet in a queue of limiter `r`. -/
def weight (k : Kernel) : RlId K D → Skb → ℕ
  | .txc _, _ => 2
  | .dest _ _, pkt => passWork k pkt + 4

/-- The packet at the head has not been looked at. -/
def Queue.unseen (q : Queue) : ℕ :=
  match q.list with
  | [] => 0
  | pkt :: _ => if q.firstPktSize = pkt.size then 0 else 1

/-- The work that a queue of limiter `r` still means. -/
def Queue.work (k : Kernel) (r : RlId K D) (q : Queue) : ℕ :=
  ((q.list.map Skb.size).sum - q.tokens) + (q.list.map (weight k r)).sum + q.unseen

theorem Queue.unseen_le (q : Queue) : q.unseen ≤ 1 := by
  unfold Queue.unseen
  split
  · exact Nat.zero_le _
  · split_ifs
    · exact Nat.zero_le _
    · exact le_rfl

omit [DecidableEq K] [DecidableEq D] in
theorem two_le_weight (k : Kernel) (r : RlId K D) (pkt : Skb) : 2 ≤ weight k r pkt := by
  cases r with
  | txc t => exact le_rfl
  | dest t d => exact (by decide : 2 ≤ 4).trans (Nat.le_add_left ..)

omit [DecidableEq K] [DecidableEq D] in
/-- A queue means work exactly if it holds packets. -/
theorem Queue.work_eq_zero_iff (k : Kernel) (r : RlId K D) (q : Queue) :
    q.work k r = 0 ↔ q.list = [] := by
  unfold Queue.work Queue.unseen
  cases q.list with
  | nil => simp
  | cons pkt rest =>
    have := two_le_weight k r pkt
    simp only [List.map_cons, List.sum_cons, reduceCtorEq, iff_false]
    omega

section Work

variable {k : Kernel} {r : RlId K D} {q : Queue}

section

omit [DecidableEq K] [DecidableEq D]

/-- The queue gets tokens. -/
theorem Queue.work_tokens_le {tokens : ℕ} (hle : q.tokens ≤ tokens) :
    ({ q with tokens := tokens } : Queue).work k r ≤ q.work k r := by
  unfold Queue.work Queue.unseen
  dsimp only
  omega

/-- The queue gets tokens that it lacks. -/
theorem Queue.work_tokens_lt {tokens : ℕ} (hlt : q.tokens < tokens)
    (hlack : q.tokens < (q.list.map Skb.size).sum) :
    ({ q with tokens := tokens } : Queue).work k r + 1 ≤ q.work k r := by
  unfold Queue.work Queue.unseen
  dsimp only
  omega

/-- The head is looked at. -/
theorem Queue.work_look {pkt : Skb} {rest : List Skb} (hlist : q.list = pkt :: rest) :
    ({ q with firstPktSize := pkt.size } : Queue).work k r + q.unseen = q.work k r := by
  unfold Queue.work Queue.unseen
  simp [hlist]

/-- The head is sent. -/
theorem Queue.work_remove {pkt : Skb} {rest : List Skb} (hlist : q.list = pkt :: rest)
    (htokens : pkt.size ≤ q.tokens) (bytes xmit : ℕ) :
    (⟨rest, q.firstPktSize, bytes, xmit, q.tokens - pkt.size⟩ : Queue).work k r + weight k r pkt ≤
      q.work k r + 1 := by
  have hunseen := Queue.unseen_le ⟨rest, q.firstPktSize, bytes, xmit, q.tokens - pkt.size⟩
  unfold Queue.work
  simp only [hlist, List.map_cons, List.sum_cons]
  omega

/-- Packets are put behind. -/
theorem Queue.work_add (added : List Skb) (bytes : ℕ) :
    ({ q with list := q.list ++ added, bytesEnqueued := bytes } : Queue).work k r ≤
      q.work k r + (added.map Skb.size).sum + (added.map (weight k r)).sum + 1 := by
  have hunseen := Queue.unseen_le { q with list := q.list ++ added, bytesEnqueued := bytes }
  unfold Queue.work
  simp only [List.map_append, List.sum_append]
  omega

end

end Work

omit [DecidableEq K] [DecidableEq D] [DecidableEq C] in
/-- What is added to a class-level queue is covered by the weight of the packet. -/
theorem Outcome.work_le {p : Params} {k : Kernel} {t : K} {c : C} {pkt : Skb}
    {bytes : ℕ} {v : IsoVerdict} {added : List Skb} {evs : List (Event K D C)}
    (hout : Outcome p k (.txc t) c pkt bytes v added evs) :
    (added.map Skb.size).sum + (added.map (weight k (.txc t : RlId K D))).sum ≤ passWork k pkt := by
  have hsum : ∀ l : List Skb, (l.map Skb.size).sum + (l.map (weight k (.txc t : RlId K D))).sum =
      (l.map classWork).sum := by
    intro l
    induction l with
    | nil => rfl
    | cons a l ih =>
      simp only [List.map_cons, List.sum_cons, weight, classWork] at ih ⊢
      omega
  rw [hsum]
  unfold passWork
  cases hout with
  | drop hfull => exact Nat.zero_le _
  | error hgso => exact Nat.zero_le _
  | whole pkt' htag hroom =>
    have hsize : pkt'.size = pkt.size := Skb.size_eq_of_tag htag
    simp only [List.map_cons, List.map_nil, List.sum_cons, List.sum_nil, classWork, hsize]
    omega
  | split segs kept freed hgso hsub hall hbytes =>
    rw [hgso, Option.getD_some]
    exact ((hsub.map classWork).sum_le_sum fun _ _ => Nat.zero_le _).trans (Nat.le_add_left ..)

/-- The queues that hold packets. -/
def backlogged (s : TxState K D C) : Set (RlId K D × C) := {x | (s.q x.1 x.2).list ≠ []}

/-- The work of all queues. -/
noncomputable def potential (k : Kernel) (s : TxState K D C) : ℕ :=
  ∑ᶠ x : RlId K D × C, (s.q x.1 x.2).work k x.1

omit [DecidableEq C] [DecidableEq K] [DecidableEq D] in
theorem support_work (k : Kernel) (s : TxState K D C) :
    Function.support (fun x : RlId K D × C => (s.q x.1 x.2).work k x.1) = backlogged s := by
  ext x
  exact not_congr (Queue.work_eq_zero_iff k x.1 _)

omit [DecidableEq C] [DecidableEq K] [DecidableEq D] in
/-- Nothing is left exactly if all queues are empty. -/
theorem potential_eq_zero_iff {k : Kernel} {s : TxState K D C} (hfin : (backlogged s).Finite) :
    potential k s = 0 ↔ ∀ r c, (s.q r c).list = [] := by
  have hsupp := support_work k s
  constructor
  · intro hzero r c
    by_contra hne
    have hle := finsum_add_le_of_le (f := fun x : RlId K D × C => (s.q x.1 x.2).work k x.1)
      (g := fun _ => 0) (a := (r, c)) (n := (s.q r c).work k r) (by rwa [hsupp]) (by simp)
      (fun _ _ => Nat.zero_le _) (by simp)
    have hpos : (s.q r c).work k r ≠ 0 := fun h => hne ((Queue.work_eq_zero_iff k r _).1 h)
    rw [potential] at hzero
    omega
  · intro hempty
    have hfun : (fun x : RlId K D × C => (s.q x.1 x.2).work k x.1) = fun _ => 0 := by
      funext x
      exact (Queue.work_eq_zero_iff k x.1 _).2 (hempty x.1 x.2)
    rw [potential, hfun, finsum_zero]

/-- No count wraps, and finitely many queues hold packets. -/
structure Tidy (p : Params) (s : TxState K D C) : Prop extends Solvent p s where
  finite : (backlogged s).Finite

section Steps

variable {p : Params} {k : Kernel} {s s' : TxState K D C}

omit [DecidableEq C] [DecidableEq K] [DecidableEq D] in
/-- The work of one queue falls by `n`, and that of no other grows. -/
theorem potential_add_le {r : RlId K D} {c : C} {n : ℕ} (hfin : (backlogged s).Finite)
    (hfin' : (backlogged s').Finite)
    (hoff : ∀ r' c', (r', c') ≠ (r, c) → (s'.q r' c').work k r' ≤ (s.q r' c').work k r')
    (hself : (s'.q r c).work k r + n ≤ (s.q r c).work k r) :
    potential k s' + n ≤ potential k s :=
  finsum_add_le_of_le (by rwa [support_work]) (by rwa [support_work]) (a := (r, c))
    (fun x hx => hoff x.1 x.2 hx) hself

omit [DecidableEq C] [DecidableEq K] [DecidableEq D] in
/-- The same, with one queue more that changes. -/
theorem potential_add_le' {r r₂ : RlId K D} {c c₂ : C} {n : ℕ} (hne : (r, c) ≠ (r₂, c₂))
    (hfin : (backlogged s).Finite) (hfin' : (backlogged s').Finite)
    (hoff : ∀ r' c', (r', c') ≠ (r, c) → (r', c') ≠ (r₂, c₂) →
      (s'.q r' c').work k r' ≤ (s.q r' c').work k r')
    (hself : (s'.q r c).work k r + (s'.q r₂ c₂).work k r₂ + n ≤
      (s.q r c).work k r + (s.q r₂ c₂).work k r₂) :
    potential k s' + n ≤ potential k s :=
  finsum_add_le_of_le_off_two (by rwa [support_work]) (by rwa [support_work]) hne
    (fun x hx hx' => hoff x.1 x.2 hx hx') hself

/-- Packets come to at most one queue. -/
theorem Inner.finite (h : Inner p k s s') (hocc : Occupied p s) (hfin : (backlogged s).Finite) :
    (backlogged s').Finite := by
  have hmem : ∀ {r c}, (s'.q r c).load = (s.q r c).load → (r, c) ∈ backlogged s' →
      (r, c) ∈ backlogged s := by
    intro r c hload hx hnil
    have hlist : (s'.q r c).list = (s.q r c).list := congrArg Load.list hload
    exact hx (hlist.trans hnil)
  cases h.move hocc with
  | idle evs hevs hload htx htrace => exact hfin.subset fun x hx => hmem (hload x.1 x.2) hx
  | arrive t d c pkt v added evs hout hself hother htx htrace =>
    refine (hfin.insert (.dest t d, c)).subset fun x hx => ?_
    by_cases hx' : x = (.dest t d, c)
    · exact Or.inl hx'
    · exact Or.inr (hmem (hother x.1 x.2 hx') hx)
  | pass t d c pkt rest v added evs hlist htokens hroom hout hself hclass hother htx htrace =>
    refine ((hfin.insert (.dest t d, c)).insert (.txc t, c)).subset fun x hx => ?_
    by_cases hx' : x = (.txc t, c)
    · exact Or.inl hx'
    · by_cases hx'' : x = (.dest t d, c)
      · exact Or.inr (Or.inl hx'')
      · exact Or.inr (Or.inr (hmem (hother x.1 x.2 hx'' hx') hx))
  | transmit t c pkt rest hlist htokens hself hother htx htrace =>
    refine (hfin.insert (.txc t, c)).subset fun x hx => ?_
    by_cases hx' : x = (.txc t, c)
    · exact Or.inl hx'
    · exact Or.inr (hmem (hother x.1 x.2 hx') hx)

omit [DecidableEq K] [DecidableEq D] [DecidableEq C] in
/-- What the limiters have in memory is the same, so the potential is. -/
theorem potential_congr (hq : ∀ r c, s'.q r c = s.q r c) : potential k s' = potential k s := by
  unfold potential
  simp only [hq]

omit [DecidableEq K] [DecidableEq D] [DecidableEq C] in
/-- Borrowed tokens do not wrap. -/
theorem Borrowed.tokens {r : RlId K D} {c : C} (hb : Borrowed r c s s') (hs : Solvent p s) :
    s'.q r c = { s.q r c with tokens := (s.q r c).tokens + (s.pool r).totalTokens } := by
  have htotal := (hs.frugal r).total
  have htokens : (s.q r c).tokens < 2 ^ 33 := ((hs.frugal r).meter c).1
  rw [hb.self, u64_of_lt (by omega)]

/-- Only the queue that borrows changes. -/
theorem Borrowed.potential_add_le {r : RlId K D} {c : C} (hb : Borrowed r c s s')
    (hfin : (backlogged s).Finite) {n : ℕ}
    (hself : (s'.q r c).work k r + n ≤ (s.q r c).work k r) :
    potential k s' + n ≤ potential k s := by
  have hlist : ∀ r' c', (s'.q r' c').list = (s.q r' c').list := by
    intro r' c'
    by_cases hx : (r', c') = (r, c)
    · obtain ⟨rfl, rfl⟩ := Prod.mk.inj hx
      rw [hb.self]
    · rw [hb.other r' c' hx]
  have hfin' : (backlogged s').Finite :=
    hfin.subset fun x hx hnil => hx ((hlist x.1 x.2).trans hnil)
  exact Rl.potential_add_le hfin hfin' (fun r' c' hx => by rw [hb.other r' c' hx]) hself

/-- Looking at the head takes the work of looking from the potential. -/
theorem potential_peek {r : RlId K D} {c : C} {pkt : Skb} {rest : List Skb}
    (hlist : (s.q r c).list = pkt :: rest) (hfin : (backlogged s).Finite) :
    potential k (peek r c pkt s) + (s.q r c).unseen ≤ potential k s := by
  have hfin' : (backlogged (peek r c pkt s)).Finite := by
    refine hfin.subset fun x hx hnil => hx ?_
    by_cases hx' : x = (r, c)
    · subst hx'
      rw [q_peek_self]
      exact hnil
    · rw [q_peek_of_ne pkt s hx']
      exact hnil
  refine potential_add_le hfin hfin' (fun r' c' hx => by rw [q_peek_of_ne pkt s hx]) ?_
  rw [q_peek_self, Queue.work_look hlist]

/-- A packet that is sent is taken from the potential. -/
theorem forward_potential_lt {r : RlId K D} {c : C} {pkt : Skb} {rest : List Skb}
    (hs : Tidy p s) (hlist : (s.q r c).list = pkt :: rest)
    (htokens : pkt.size ≤ (s.q r c).tokens) (hforward : forward p k r c pkt s = some s') :
    potential k s' < potential k s := by
  have hfin := hs.finite
  have hfin' : (backlogged s').Finite :=
    (Inner.forward s s' r c pkt rest hlist htokens hforward).finite hs.occupied hfin
  have hlt : (s.q r c).tokens < 2 ^ 33 := ((hs.frugal r).meter c).1
  have hsub : sub64 (s.q r c).tokens pkt.size = (s.q r c).tokens - pkt.size :=
    sub64_of_le htokens (by omega)
  have htail : (s.q r c).list.tail = rest := by rw [hlist, List.tail_cons]
  unfold forward at hforward
  cases r with
  | txc t =>
    obtain rfl := Option.some.inj hforward
    refine potential_add_le (r := .txc t) (c := c) (n := 1) hfin hfin' (fun r' c' hne => ?_) ?_
    · rw [TxState.q_modifyCb, q_charge_of_ne _ _ hne, TxState.q_log, q_skbDequeue_of_ne _ hne]
    · have hremove := Queue.work_remove (k := k) (r := (.txc t : RlId K D)) hlist htokens
        (sub64 (s.q (.txc t) c).bytesEnqueued pkt.size) ((s.q (.txc t) c).bytesXmit + pkt.size)
      rw [TxState.q_modifyCb, q_charge_self, TxState.q_log, q_skbDequeue_self, htail, hsub]
      simp only [weight] at hremove
      dsimp only
      omega
  | dest t d =>
    dsimp only at hforward
    split_ifs at hforward with hspace
    obtain rfl := Option.some.inj hforward
    have hne : (RlId.txc t, c) ≠ (RlId.dest t d, c) := by simp
    have htouch := isoRlEnqueue_touches p k (.txc t) pkt c (skbDequeue (.dest t d) c s)
    have hparent : (skbDequeue (.dest t d) c s).q (.txc t) c = s.q (.txc t) c :=
      q_skbDequeue_of_ne s hne
    obtain ⟨added, evs, hout, happ⟩ := isoRlEnqueue_spec p k (.txc t) pkt c
      (skbDequeue (.dest t d) c s)
      (by rw [hparent]; exact add_size_lt (hs.occupied (.txc t) c).2 pkt)
    -- what the destination's queue loses covers what the class-level queue gains
    have hadd := Queue.work_add (k := k) (r := (.txc t : RlId K D)) (q := s.q (.txc t) c) added
      ((s.q (.txc t) c).bytesEnqueued + (added.map Skb.size).sum)
    have hremove := Queue.work_remove (k := k) (r := (.dest t d : RlId K D)) hlist htokens
      (sub64 (s.q (.dest t d) c).bytesEnqueued pkt.size) ((s.q (.dest t d) c).bytesXmit + pkt.size)
    have hcover := hout.work_le
    refine potential_add_le' (r := .txc t) (c := c) (n := 1) hne hfin hfin'
      (fun r' c' ht hd => ?_) ?_
    · rw [q_charge_of_ne _ _ hd, htouch.q ht, q_skbDequeue_of_ne _ hd]
    · rw [q_charge_self, q_charge_of_ne _ _ hne, htouch.q hne.symm, q_skbDequeue_self, happ.self,
        q_isoRlClock, hparent, htail, hsub]
      simp only [weight] at hremove
      dsimp only
      omega

/-- No small step without a packet from outside adds to the potential. -/
theorem Inner.potential_le (h : Inner p k s s') (hs : Tidy p s) :
    potential k s' ≤ potential k s := by
  cases h with
  | clock r => exact (potential_congr fun r' c => q_isoRlClock p k r r' c s).le
  | borrow r c hlow =>
    rcases isoRlBorrowTokens_cases p k r c s with hfail | ⟨-, hb⟩
    · rw [hfail]
      exact (potential_congr fun _ _ => rfl).le
    · refine hb.potential_add_le (n := 0) hs.finite ?_
      rw [hb.tokens hs.toSolvent]
      exact Queue.work_tokens_le (Nat.le_add_right ..)
  | peek r c pkt rest hlist =>
    exact (Nat.le_add_right ..).trans (potential_peek hlist hs.finite)
  | forward _ r c pkt rest hlist htokens hforward =>
    exact (forward_potential_lt hs hlist htokens hforward).le
  | schedule _ hrl hbytes htrace hreads =>
    exact (potential_congr fun r c => by rw [TxState.q, hrl, TxState.q]).le

theorem Inner.tidy (h : Inner p k s s') (hs : Tidy p s) : Tidy p s' :=
  ⟨(Small.inner h).solvent hs.toSolvent, h.finite hs.occupied hs.finite⟩

theorem path_tidy (h : IsPath (Inner p k) s s') (hs : Tidy p s) : Tidy p s' :=
  path_invariant (fun _ _ h => h.tidy) h hs

theorem path_potential_le (h : IsPath (Inner p k) s s') (hs : Tidy p s) :
    potential k s' ≤ potential k s :=
  (path_invariant (P := fun x => Tidy p x ∧ potential k x ≤ potential k s)
    (fun _ _ h hx => ⟨h.tidy hx.1, (h.potential_le hx.1).trans hx.2⟩) h ⟨hs, le_rfl⟩).2

end Steps

end EyeQ.Rl
