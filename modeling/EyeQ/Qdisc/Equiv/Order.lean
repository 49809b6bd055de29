import EyeQ.Qdisc.Equiv.Frame
import EyeQ.Rl.Equiv.Order

/-!
# Packets of one flow do not overtake each other

The packets of one flow are given to `iso_enqueue` one after the other, on one CPU.  As long as
there is no limiter for the flow they are handed to the device at once; from some packet on they are
queued, all of them in the queue of one destination.  `runFrom_flow_sublist`: then they leave in the
order in which they came, if no packet is segmented.

`Shift` is what a small step without a packet from outside does to the queues: nothing moves, or one
packet passes from a destination's queue to the class-level queue, or one packet leaves for the
device.  So the packets of the flow, in the order transmitted, in the class-level queue, in the
destination's queue (`stream`), stay as they are, whatever other packets pass among them.
-/

namespace EyeQ

open Machine

namespace Rl

variable {K D C : Type} [DecidableEq K] [DecidableEq D] [DecidableEq C]

/-! ### Shifts -/

def Event.isSplit : Event K D C → Bool
  | .gsoSegment _ _ _ _ => true
  | _ => false

/-- No packet was segmented. -/
def Unsplit (τ : List (Event K D C)) : Prop := ∀ r c skb segs, Event.gsoSegment r c skb segs ∉ τ

omit [DecidableEq K] [DecidableEq D] [DecidableEq C] in
theorem unsplit_iff {τ : List (Event K D C)} : (∀ e ∈ τ, e.isSplit = false) ↔ Unsplit τ := by
  constructor
  · intro h r c skb segs hmem
    exact absurd (h _ hmem) Bool.true_eq_false.mp
  · intro h e he
    cases e with
    | gsoSegment r c skb segs => exact absurd he (h r c skb segs)
    | accept | trim | kfree | head | charge | xmit => rfl

instance (τ : List (Event K D C)) : Decidable (Unsplit τ) := decidable_of_iff _ unsplit_iff

omit [DecidableEq K] [DecidableEq D] [DecidableEq C] in
theorem Unsplit.mono {τ τ' : List (Event K D C)} (h : Unsplit τ') (hsub : τ ⊆ τ') : Unsplit τ :=
  fun r c skb segs hmem => h r c skb segs (hsub hmem)

/-- A step without a packet from outside, seen from the packets in the queues. -/
inductive Shift (s s' : TxState K D C) : Prop
  | still (htags : ∀ r c, tags s' r c = tags s r c)
      (hsent : ∀ c, transmitted c s'.trace = transmitted c s.trace)
  | pass (t : K) (d : D) (c : C) (x : ℕ × ℕ) (hfrom : tags s (.dest t d) c =
      x :: tags s' (.dest t d) c)
      (hto : tags s' (.txc t) c = tags s (.txc t) c ++ [x])
      (hother : ∀ r c', (r, c') ≠ (.txc t, c) → (r, c') ≠ (.dest t d, c) →
        tags s' r c' = tags s r c')
      (hsent : ∀ c, transmitted c s'.trace = transmitted c s.trace)
  | transmit (t : K) (c : C) (x : ℕ × ℕ) (hfrom : tags s (.txc t) c = x :: tags s' (.txc t) c)
      (hother : ∀ r c', (r, c') ≠ (.txc t, c) → tags s' r c' = tags s r c')
      (hself : transmitted c s'.trace = transmitted c s.trace ++ [x])
      (hsent : ∀ c', c' ≠ c → transmitted c' s'.trace = transmitted c' s.trace)

section

variable {p : Params} {k : Kernel} {s s' : TxState K D C}

/-- A packet that is sent is charged for. -/
theorem forward_trace {r : RlId K D} {c : C} {pkt : Skb} (h : forward p k r c pkt s = some s') :
    ∃ τ n m b, s'.trace = τ ++ [.charge r c n m b] := by
  unfold forward at h
  cases r with
  | txc t =>
    obtain rfl := Option.some.inj h
    exact ⟨_, _, _, _, rfl⟩
  | dest t d =>
    dsimp only at h
    split_ifs at h
    obtain rfl := Option.some.inj h
    exact ⟨_, _, _, _, rfl⟩

/-- A step without a packet from outside accepts none. -/
theorem Inner.accept_notMem (h : Inner p k s s') {t : K} {d : D} {c : C} {pkt : Skb} :
    s'.trace ≠ s.trace ++ [.accept (.dest t d) c pkt] := by
  intro htrace
  rcases h.still_or_forward with hstill | ⟨r, c', pkt', rest, -, -, hforward⟩
  · obtain ⟨evs, hevs, htrace'⟩ := hstill.trace
    obtain rfl : [.accept (.dest t d) c pkt] = evs :=
      List.append_cancel_left (htrace.symm.trans htrace')
    obtain ⟨_, _, _, hhead⟩ := hevs _ (List.mem_singleton_self _)
    cases hhead
  · obtain ⟨τ, n, m, b, hcharge⟩ := forward_trace hforward
    have hlast := List.append_inj_right' (htrace.symm.trans hcharge) rfl
    cases hlast

omit [DecidableEq K] [DecidableEq D] [DecidableEq C] in
/-- An enqueue that splits nothing adds the packet or nothing. -/
theorem Outcome.unsplit {r : RlId K D} {c : C} {pkt : Skb} {bytes : ℕ} {v : IsoVerdict}
    {added : List Skb} {evs : List (Event K D C)} (hout : Outcome p k r c pkt bytes v added evs)
    (hw : Unsplit evs) :
    (added = [] ∧ evs = [] ∧ v = .drop ∧ p.isoMaxQueueLenBytes < bytes + pkt.size) ∨
      (added.map Skb.tag = [pkt.tag] ∧ evs = [.accept r c pkt] ∧ v = .success) := by
  cases hout with
  | drop hfull => exact Or.inl ⟨rfl, rfl, rfl, hfull⟩
  | error hgso => exact absurd (List.mem_singleton_self _) (hw r c pkt none)
  | whole pkt' htag hroom => exact Or.inr ⟨congrArg (fun x => [x]) htag, rfl, rfl⟩
  | split segs kept freed hgso hsub hall hbytes => exact absurd (by simp) (hw r c pkt (some segs))

omit [DecidableEq K] [DecidableEq D] in
theorem transmitted_of_accept (c' : C) (τ : List (Event K D C)) (r : RlId K D) (c : C) (pkt : Skb) :
    transmitted c' (τ ++ [.accept r c pkt]) = transmitted c' τ := by
  rw [transmitted_append]
  exact List.append_nil _

theorem Still.shift (h : Still s s') : Shift s s' := by
  obtain ⟨evs, hevs, htrace⟩ := h.trace
  refine .still (fun r c => tags_of_load (h.load r c)) fun c => ?_
  have hquiet : Quiet evs := .of_forall fun e he => by
    obtain ⟨r, c, pkt, rfl⟩ := hevs e he
    exact .head r c pkt
  rw [htrace, transmitted_append, hquiet.sent, List.append_nil]

theorem Inner.shift (hocc : Occupied p s) (hw : Unsplit s'.trace) (h : Inner p k s s') :
    Shift s s' := by
  cases h.move hocc with
  | idle evs hevs hload htx htrace => exact Still.shift ⟨hload, htx, evs, hevs, htrace⟩
  | arrive t d c pkt v added evs hout hself hother _ htrace =>
    have hevs : Unsplit evs := hw.mono (htrace ▸ List.subset_append_right _ _)
    rcases hout.unsplit hevs with ⟨rfl, rfl, -, -⟩ | ⟨-, rfl, -⟩
    · rw [List.append_nil] at htrace
      refine .still (fun r c' => ?_) fun c' => by rw [htrace]
      by_cases hx : (r, c') = (.dest t d, c)
      · obtain ⟨rfl, rfl⟩ := Prod.mk.inj hx
        rw [tags_of_add hself]
        exact List.append_nil _
      · exact tags_of_load (hother r c' hx)
    · exact absurd htrace h.accept_notMem
  | pass t d c pkt rest v added evs hlist _ hroom hout hself hclass hother _ htrace =>
    have hevs : Unsplit evs := by
      refine hw.mono ?_
      rw [htrace, List.append_assoc]
      exact List.subset_append_of_subset_right _ (List.subset_append_left _ _)
    obtain ⟨hfrom, hfrom'⟩ := tags_of_remove hlist hself
    rcases hout.unsplit hevs with ⟨-, -, -, hfull⟩ | ⟨htag, rfl, -⟩
    · -- there was room for it
      exact absurd hroom (Nat.lt_asymm hfull)
    · refine .pass t d c pkt.tag ?_ ?_
        (fun r c' ht hd => tags_of_load (hother r c' hd ht)) fun c' => ?_
      · rw [hfrom, hfrom']
      · rw [tags_of_add hclass, htag]
      · rw [htrace, transmitted_append, transmitted_of_accept]
        exact List.append_nil _
  | transmit t c pkt rest hlist _ hself hother _ htrace =>
    obtain ⟨hfrom, hfrom'⟩ := tags_of_remove hlist hself
    refine .transmit t c pkt.tag ?_ (fun r c' hx => tags_of_load (hother r c' hx)) ?_ fun c' hc =>
      ?_
    · rw [hfrom, hfrom']
    · rw [htrace, transmitted_append]
      simp [transmitted]
    · rw [htrace, transmitted_append]
      simp [transmitted, hc.symm]

/-! ### The packets of a flow -/

/-- Every packet in the queues and every packet transmitted is one of `T`. -/
structure Known (T : List (ℕ × ℕ)) (s : TxState K D C) : Prop where
  queued : ∀ r c, ∀ x ∈ tags s r c, x ∈ T
  sent : ∀ c, ∀ x ∈ transmitted c s.trace, x ∈ T

omit [DecidableEq K] [DecidableEq D] in
theorem Known.mono {T T' : List (ℕ × ℕ)} (h : Known T s) (hT : T ⊆ T') : Known T' s :=
  ⟨fun r c x hx => hT (h.queued r c x hx), fun c x hx => hT (h.sent c x hx)⟩

/-- What is in a queue after a shift was in one before it. -/
theorem Shift.exists_mem (h : Shift s s') {r : RlId K D} {c : C} {x : ℕ × ℕ}
    (hx : x ∈ tags s' r c) :
    ∃ r₀ c₀, x ∈ tags s r₀ c₀ := by
  cases h with
  | still htags _ => exact ⟨r, c, htags r c ▸ hx⟩
  | pass t d c₁ y hfrom hto hother _ =>
    by_cases ht : (r, c) = (.txc t, c₁)
    · obtain ⟨rfl, rfl⟩ := Prod.mk.inj ht
      rw [hto] at hx
      rcases List.mem_append.1 hx with hx | hx
      · exact ⟨_, _, hx⟩
      · rw [List.mem_singleton.1 hx]
        exact ⟨.dest t d, c, hfrom ▸ List.mem_cons_self⟩
    · by_cases hd : (r, c) = (.dest t d, c₁)
      · obtain ⟨rfl, rfl⟩ := Prod.mk.inj hd
        exact ⟨_, _, hfrom ▸ List.mem_cons_of_mem _ hx⟩
      · exact ⟨_, _, hother r c ht hd ▸ hx⟩
  | transmit t c₁ y hfrom hother _ _ =>
    by_cases ht : (r, c) = (.txc t, c₁)
    · obtain ⟨rfl, rfl⟩ := Prod.mk.inj ht
      exact ⟨_, _, hfrom ▸ List.mem_cons_of_mem _ hx⟩
    · exact ⟨_, _, hother r c ht ▸ hx⟩

omit [DecidableEq K] [DecidableEq D] in
/-- What a shift transmits was in a queue. -/
theorem Shift.transmitted_eq (h : Shift s s') (c : C) :
    transmitted c s'.trace = transmitted c s.trace ∨
      ∃ x r, x ∈ tags s r c ∧ transmitted c s'.trace = transmitted c s.trace ++ [x] := by
  cases h with
  | still _ hsent => exact Or.inl (hsent c)
  | pass _ _ _ _ _ _ _ hsent => exact Or.inl (hsent c)
  | transmit t c₁ y hfrom _ hself hsent =>
    by_cases hc : c = c₁
    · subst hc
      exact Or.inr ⟨y, .txc t, hfrom ▸ List.mem_cons_self, hself⟩
    · exact Or.inl (hsent c hc)

theorem Known.shift {T : List (ℕ × ℕ)} (h : Known T s) (hs : Shift s s') : Known T s' := by
  constructor
  · intro r c x hx
    obtain ⟨r₀, c₀, hx₀⟩ := hs.exists_mem hx
    exact h.queued r₀ c₀ x hx₀
  · intro c x hx
    rcases hs.transmitted_eq c with heq | ⟨y, r, hy, heq⟩
    · exact h.sent c x (heq ▸ hx)
    · rw [heq] at hx
      rcases List.mem_append.1 hx with hx | hx
      · exact h.sent c x hx
      · rw [List.mem_singleton.1 hx]
        exact h.queued r c y hy

/-- The packets of the flow `F` that is sent on CPU `c` are in no queue, and have left in order. -/
structure Unqueued (F : List (ℕ × ℕ)) (c : C) (s : TxState K D C) : Prop where
  clear : ∀ r c', ∀ x ∈ tags s r c', x ∉ F
  order : ((transmitted c s.trace).filter (· ∈ F)).Sublist F

theorem Unqueued.shift {F : List (ℕ × ℕ)} {c : C} (h : Unqueued F c s) (hs : Shift s s') :
    Unqueued F c s' := by
  constructor
  · intro r c' x hx
    obtain ⟨r₀, c₀, hx₀⟩ := hs.exists_mem hx
    exact h.clear r₀ c₀ x hx₀
  · rcases hs.transmitted_eq c with heq | ⟨y, r, hy, heq⟩
    · rw [heq]
      exact h.order
    · have hnot : y ∉ F := h.clear r c y hy
      rw [heq, List.filter_append, List.filter_cons_of_neg (by simpa using hnot),
        List.filter_nil, List.append_nil]
      exact h.order

/-- What has been transmitted on a CPU, what is in a class-level queue there, and what is in the
queue of one of its destinations. -/
def stream (t : K) (d : D) (c : C) (s : TxState K D C) : List (ℕ × ℕ) :=
  transmitted c s.trace ++ tags s (.txc t) c ++ tags s (.dest t d) c

/-- The packets of the flow `F` are in the queue of one destination, or have gone the way from
there, in order. -/
structure Flow (F : List (ℕ × ℕ)) (t : K) (d : D) (c : C) (s : TxState K D C) : Prop where
  away : ∀ r c', (r, c') ≠ (.txc t, c) → (r, c') ≠ (.dest t d, c) → ∀ x ∈ tags s r c', x ∉ F
  order : ((stream t d c s).filter (· ∈ F)).Sublist F

omit [DecidableEq K] [DecidableEq D] in
theorem Unqueued.flow {F : List (ℕ × ℕ)} {c : C} (h : Unqueued F c s) (t : K) (d : D) :
    Flow F t d c s := by
  refine ⟨fun r c' _ _ => h.clear r c', ?_⟩
  have hnil : ∀ r, (tags s r c).filter (· ∈ F) = [] := fun r =>
    List.filter_eq_nil_iff.2 fun x hx => by simpa using h.clear r c x hx
  rw [stream, List.filter_append, List.filter_append, hnil, hnil, List.append_nil, List.append_nil]
  exact h.order

theorem filter_append_of_notMem {F : List (ℕ × ℕ)} {x : ℕ × ℕ} (hx : x ∉ F) (l : List (ℕ × ℕ)) :
    (l ++ [x]).filter (· ∈ F) = l.filter (· ∈ F) := by
  rw [List.filter_append, List.filter_cons_of_neg (by simpa using hx),
    List.filter_nil, List.append_nil]

/-- A shift leaves the packets of the flow in their order. -/
theorem Flow.filter_stream {F : List (ℕ × ℕ)} {t : K} {d : D} {c : C} (h : Flow F t d c s)
    (hs : Shift s s') :
    (stream t d c s').filter (· ∈ F) = (stream t d c s).filter (· ∈ F) := by
  cases hs with
  | still htags hsent =>
    unfold stream
    rw [hsent, htags, htags]
  | pass t₁ d₁ c₁ x hfrom hto hother hsent =>
    by_cases htc : t = t₁ ∧ c = c₁
    · obtain ⟨rfl, rfl⟩ := htc
      by_cases hdest : d = d₁
      · subst hdest
        -- the packet that was first in the one queue is the last in the other
        unfold stream
        rw [hsent, hto, hfrom]
        simp only [List.append_assoc, List.singleton_append]
      · have hne : (RlId.dest t d₁, c) ≠ (RlId.dest t d, c) := by simpa using Ne.symm hdest
        have hx : x ∉ F := h.away _ _ (by simp) hne x (hfrom ▸ List.mem_cons_self)
        unfold stream
        rw [hsent, hto, hother (.dest t d) c (by simp) hne.symm, ← List.append_assoc,
          List.filter_append, filter_append_of_notMem hx, ← List.filter_append]
    · unfold stream
      rw [hsent, hother (.txc t) c (by simpa using htc) (by simp),
        hother (.dest t d) c (by simp) fun heq => htc (by simp_all)]
  | transmit t₁ c₁ x hfrom hother hself hsent =>
    have hdest : tags s' (.dest t d) c = tags s (.dest t d) c := hother _ _ (by simp)
    by_cases hc : c = c₁
    · subst hc
      by_cases ht : t = t₁
      · subst ht
        unfold stream
        rw [hself, hfrom, hdest]
        simp only [List.append_assoc, List.cons_append, List.nil_append]
      · have hne : ((.txc t₁, c) : RlId K D × C) ≠ (.txc t, c) := by simpa using Ne.symm ht
        have hx : x ∉ F := h.away _ _ hne (by simp) x (hfrom ▸ List.mem_cons_self)
        unfold stream
        rw [hself, hother _ _ hne.symm, hdest, List.append_assoc, List.filter_append,
          filter_append_of_notMem hx, ← List.filter_append, ← List.append_assoc]
    · unfold stream
      rw [hsent c hc, hother (.txc t) c (by simp [hc]), hdest]

theorem Flow.shift {F : List (ℕ × ℕ)} {t : K} {d : D} {c : C} (h : Flow F t d c s)
    (hs : Shift s s') :
    Flow F t d c s' := by
  refine ⟨?_, h.filter_stream hs ▸ h.order⟩
  intro r c' ht hd x hx
  cases hs with
  | still htags _ => exact h.away r c' ht hd x (htags r c' ▸ hx)
  | pass t₁ d₁ c₁ y hfrom hto hother _ =>
    by_cases hto' : (r, c') = (.txc t₁, c₁)
    · obtain ⟨rfl, rfl⟩ := Prod.mk.inj hto'
      rw [hto] at hx
      rcases List.mem_append.1 hx with hx | hx
      · exact h.away _ _ ht hd x hx
      · -- it comes from a destination of the same class, which is not the one of the flow
        rw [List.mem_singleton.1 hx]
        refine h.away (.dest t₁ d₁) c' (by simp) (fun heq => ht ?_) y (hfrom ▸ List.mem_cons_self)
        simp_all
    · by_cases hfrom' : (r, c') = (.dest t₁ d₁, c₁)
      · obtain ⟨rfl, rfl⟩ := Prod.mk.inj hfrom'
        exact h.away _ _ ht hd x (hfrom ▸ List.mem_cons_of_mem _ hx)
      · exact h.away _ _ ht hd x (hother r c' hto' hfrom' ▸ hx)
  | transmit t₁ c₁ y hfrom hother _ _ =>
    by_cases hfrom' : (r, c') = (.txc t₁, c₁)
    · obtain ⟨rfl, rfl⟩ := Prod.mk.inj hfrom'
      exact h.away _ _ ht hd x (hfrom ▸ List.mem_cons_of_mem _ hx)
    · exact h.away _ _ ht hd x (hother r c' hfrom' ▸ hx)

/-- What every shift keeps, every sequence of steps without a packet from outside keeps, if nothing
is segmented. -/
theorem shift_invariant {P : TxState K D C → Prop} (hP : ∀ s s', Shift s s' → P s → P s')
    (hpath : IsPath (Inner p k) s s') (hocc : Occupied p s) (hs : P s) :
    Occupied p s' ∧ s.trace ⊆ s'.trace ∧ (Unsplit s'.trace → P s') := by
  refine path_invariant (P := fun x => Occupied p x ∧ s.trace ⊆ x.trace ∧
    (Unsplit x.trace → P x)) ?_ hpath ⟨hocc, fun _ h => h, fun _ => hs⟩
  rintro x y hinner ⟨hocc, hsub, hx⟩
  have hm := hinner.move hocc
  refine ⟨hm.occupied hocc, List.Subset.trans hsub hm.trace_subset, fun hw => ?_⟩
  exact hP x y (hinner.shift hocc hw) (hx (hw.mono hm.trace_subset))

end

/-! ### A packet comes in -/

section

variable {s s' : TxState K D C} {F : List (ℕ × ℕ)} {x : ℕ × ℕ}

theorem filter_mem_append {l : List (ℕ × ℕ)} (hx : x ∉ l) :
    l.filter (· ∈ F ++ [x]) = l.filter (· ∈ F) := by
  refine List.filter_congr fun y hy => ?_
  have hne : y ≠ x := fun heq => hx (heq ▸ hy)
  simp [hne]

/-- The packet `x` is handed to the device at once. -/
structure Bypassed (c : C) (x : ℕ × ℕ) (s s' : TxState K D C) : Prop where
  tags : ∀ r c, tags s' r c = tags s r c
  self : transmitted c s'.trace = transmitted c s.trace ++ [x]
  other : ∀ c', c' ≠ c → transmitted c' s'.trace = transmitted c' s.trace

/-- The packet `x` is put in the queue of a destination. -/
structure Accepted (t : K) (d : D) (c : C) (x : ℕ × ℕ) (s s' : TxState K D C) : Prop where
  self : tags s' (.dest t d) c = tags s (.dest t d) c ++ [x]
  other : ∀ r c', (r, c') ≠ (.dest t d, c) → tags s' r c' = tags s r c'
  sent : ∀ c, transmitted c s'.trace = transmitted c s.trace

omit [DecidableEq K] [DecidableEq D] in
theorem Bypassed.known {T : List (ℕ × ℕ)} {c : C} (hb : Bypassed c x s s') (h : Known T s) :
    Known (T ++ [x]) s' := by
  constructor
  · intro r c' y hy
    exact List.mem_append_left _ (h.queued r c' y (hb.tags r c' ▸ hy))
  · intro c' y hy
    by_cases hc : c' = c
    · subst hc
      rw [hb.self] at hy
      rcases List.mem_append.1 hy with hy | hy
      · exact List.mem_append_left _ (h.sent c' y hy)
      · exact List.mem_append_right _ hy
    · exact List.mem_append_left _ (h.sent c' y (hb.other c' hc ▸ hy))

theorem Accepted.known {T : List (ℕ × ℕ)} {t : K} {d : D} {c : C}
    (ha : Accepted t d c x s s') (h : Known T s) :
    Known (T ++ [x]) s' := by
  constructor
  · intro r c' y hy
    by_cases hr : (r, c') = (.dest t d, c)
    · obtain ⟨rfl, rfl⟩ := Prod.mk.inj hr
      rw [ha.self] at hy
      rcases List.mem_append.1 hy with hy | hy
      · exact List.mem_append_left _ (h.queued _ _ y hy)
      · exact List.mem_append_right _ hy
    · exact List.mem_append_left _ (h.queued r c' y (ha.other r c' hr ▸ hy))
  · intro c' y hy
    exact List.mem_append_left _ (h.sent c' y (ha.sent c' ▸ hy))

/-! ### A packet that comes in and the flow -/

theorem forall_notMem_iff {l : List (ℕ × ℕ)} : (∀ y ∈ l, y ∉ F) ↔ l.filter (· ∈ F) = [] := by
  simp [List.filter_eq_nil_iff]

/-- The packets of `F` are where they were. -/
structure Alike (F : List (ℕ × ℕ)) (s s' : TxState K D C) : Prop where
  tags : ∀ r c, (tags s' r c).filter (· ∈ F) = (tags s r c).filter (· ∈ F)
  sent : ∀ c, (transmitted c s'.trace).filter (· ∈ F) = (transmitted c s.trace).filter (· ∈ F)

omit [DecidableEq K] [DecidableEq D] in
theorem Bypassed.alike {c : C} (hb : Bypassed c x s s') (hx : x ∉ F) : Alike F s s' := by
  refine ⟨fun r c => by rw [hb.tags], fun c' => ?_⟩
  by_cases hc : c' = c
  · subst hc
    rw [hb.self, filter_append_of_notMem hx]
  · rw [hb.other c' hc]

theorem Accepted.alike {t : K} {d : D} {c : C} (ha : Accepted t d c x s s') (hx : x ∉ F) :
    Alike F s s' := by
  refine ⟨fun r c' => ?_, fun c => by rw [ha.sent]⟩
  by_cases hr : (r, c') = (.dest t d, c)
  · obtain ⟨rfl, rfl⟩ := Prod.mk.inj hr
    rw [ha.self, filter_append_of_notMem hx]
  · rw [ha.other r c' hr]

section

omit [DecidableEq K] [DecidableEq D]

theorem Unqueued.congr {c : C} (h : Unqueued F c s) (ha : Alike F s s') : Unqueued F c s' := by
  refine ⟨fun r c' => ?_, ha.sent c ▸ h.order⟩
  rw [forall_notMem_iff, ha.tags, ← forall_notMem_iff]
  exact h.clear r c'

theorem Flow.congr {t : K} {d : D} {c : C} (h : Flow F t d c s) (ha : Alike F s s') :
    Flow F t d c s' := by
  refine ⟨fun r c' ht hd => ?_, ?_⟩
  · rw [forall_notMem_iff, ha.tags, ← forall_notMem_iff]
    exact h.away r c' ht hd
  · have horder := h.order
    unfold stream at horder ⊢
    rw [List.filter_append, List.filter_append] at horder ⊢
    rw [ha.sent, ha.tags, ha.tags]
    exact horder

/-- A packet that is new is not in the queues. -/
theorem Known.notMem_tags {T : List (ℕ × ℕ)} (h : Known T s) (hx : x ∉ T) (r : RlId K D) (c : C) :
    x ∉ Rl.tags s r c := fun hmem => hx (h.queued r c x hmem)

theorem Known.notMem_stream {T : List (ℕ × ℕ)} (h : Known T s) (hx : x ∉ T)
    (t : K) (d : D) (c : C) :
    x ∉ stream t d c s := by
  intro hmem
  rcases List.mem_append.1 hmem with hmem | hmem
  · rcases List.mem_append.1 hmem with hmem | hmem
    · exact hx (h.sent c x hmem)
    · exact hx (h.queued _ _ x hmem)
  · exact hx (h.queued _ _ x hmem)

/-- The flow has a new packet, which is dropped. -/
theorem Flow.announce {T : List (ℕ × ℕ)} {t : K} {d : D} {c : C}
    (h : Flow F t d c s) (hk : Known T s) (hx : x ∉ T) : Flow (F ++ [x]) t d c s := by
  refine ⟨fun r c' ht hd => ?_, ?_⟩
  · rw [forall_notMem_iff, filter_mem_append (hk.notMem_tags hx r c'), ← forall_notMem_iff]
    exact h.away r c' ht hd
  · rw [filter_mem_append (hk.notMem_stream hx t d c)]
    exact h.order.trans (List.sublist_append_left F [x])

/-- The flow has a new packet, which is queued behind the others. -/
theorem Flow.accept {T : List (ℕ × ℕ)} {t : K} {d : D} {c : C} (h : Flow F t d c s) (hk : Known T s)
    (hx : x ∉ T) (ha : Accepted t d c x s s') : Flow (F ++ [x]) t d c s' := by
  refine ⟨fun r c' ht hd => ?_, ?_⟩
  · rw [ha.other r c' hd]
    exact (h.announce hk hx).away r c' ht hd
  · have hstream : stream t d c s' = stream t d c s ++ [x] := by
      unfold stream
      rw [ha.sent, ha.self, ha.other (.txc t) c (by simp), List.append_assoc, List.append_assoc,
        List.append_assoc]
    rw [hstream, List.filter_append, filter_mem_append (hk.notMem_stream hx t d c),
      List.filter_cons_of_pos (by simp), List.filter_nil]
    exact h.order.append (List.Sublist.refl [x])

/-- The flow has a new packet, which is handed to the device at once. -/
theorem Unqueued.bypass {T : List (ℕ × ℕ)} {c : C} (h : Unqueued F c s)
    (hk : Known T s) (hx : x ∉ T) (hb : Bypassed c x s s') : Unqueued (F ++ [x]) c s' := by
  refine ⟨fun r c' => ?_, ?_⟩
  · rw [hb.tags, forall_notMem_iff, filter_mem_append (hk.notMem_tags hx r c'), ← forall_notMem_iff]
    exact h.clear r c'
  · have hsent : x ∉ transmitted c s.trace := fun hmem => hx (hk.sent c x hmem)
    rw [hb.self, List.filter_append, filter_mem_append hsent,
      List.filter_cons_of_pos (by simp), List.filter_nil]
    exact h.order.append (List.Sublist.refl [x])

end

end

end Rl

/-! ### Runs -/

namespace Qdisc

open Rl

variable {K D C : Type} [DecidableEq K] [DecidableEq D] [DecidableEq C]

/-- The packets of the flow `P`. -/
def flowTags (P : Sending K D C → Prop) [DecidablePred P] (sent : List (Sending K D C)) :
    List (ℕ × ℕ) :=
  (sent.filter P).map fun e => e.2.2.tag

/-- Of the packets given to `iso_enqueue`, those of the flow `P` come on CPU `c`, and from the first
that is sent to a limiter on, all are sent to that limiter. -/
structure Steady (p : Params) (P : Sending K D C → Prop) (c : C) (sent : List (Sending K D C)) :
    Prop where
  cpu : ∀ e ∈ sent, P e → e.2.1 = c
  fresh : (sent.map fun e => e.2.2.tag).Nodup
  pairwise : sent.Pairwise fun a b => P a → P b → ∀ x, a.1 = some x → b.1 = some x
  off : p.isoGlobalEnabled = false → ∀ e ∈ sent, e.1 = none

/-- The packets of the flow are in order. -/
structure InOrder (P : Sending K D C → Prop) [DecidablePred P] (c : C) (sent : List (Sending K D C))
    (s : TxState K D C) : Prop where
  known : Known (sent.map fun e => e.2.2.tag) s
  idle : (∀ e ∈ sent, P e → e.1 = none) → Unqueued (flowTags P sent) c s
  busy : ∀ e ∈ sent, P e → ∀ t d, e.1 = some (t, d) → Flow (flowTags P sent) t d c s

section

variable {p : Params} {k : Kernel} {P : Sending K D C → Prop} [DecidablePred P] {c : C}
  {sent : List (Sending K D C)} {s s' : TxState K D C} {e : Sending K D C}

section

omit [DecidableEq K] [DecidableEq D] [DecidableEq C]

theorem flowTags_append_of_pos (he : P e) :
    flowTags P (sent ++ [e]) = flowTags P sent ++ [e.2.2.tag] := by
  rw [flowTags, List.filter_append, List.filter_cons_of_pos (by simpa using he),
    List.filter_nil, List.map_append]
  rfl

theorem flowTags_append_of_neg (he : ¬ P e) : flowTags P (sent ++ [e]) = flowTags P sent := by
  rw [flowTags, List.filter_append, List.filter_cons_of_neg (by simpa using he),
    List.filter_nil, List.append_nil]
  rfl

theorem flowTags_subset : flowTags P sent ⊆ sent.map fun e => e.2.2.tag :=
  List.map_subset _ (List.filter_subset_self sent)

end

/-- What the conditions say of the last packet. -/
structure Steady.Last (P : Sending K D C → Prop) (c : C) (sent : List (Sending K D C))
    (e : Sending K D C) :
    Prop where
  cpu : P e → e.2.1 = c
  fresh : e.2.2.tag ∉ sent.map fun e => e.2.2.tag
  steady : ∀ a ∈ sent, P a → P e → ∀ x, a.1 = some x → e.1 = some x

omit [DecidableEq K] [DecidableEq D] [DecidableEq C] [DecidablePred P] in
theorem Steady.last (h : Steady p P c (sent ++ [e])) :
    Steady p P c sent ∧ Steady.Last P c sent e := by
  have hmem : e ∈ sent ++ [e] := List.mem_append_right _ (List.mem_singleton_self e)
  have hfresh := h.fresh
  rw [List.map_append, List.nodup_append] at hfresh
  obtain ⟨hpair, -, hlast⟩ := List.pairwise_append.1 h.pairwise
  refine ⟨⟨fun a ha => h.cpu a (List.mem_append_left _ ha), hfresh.1, hpair,
    fun hoff a ha => h.off hoff a (List.mem_append_left _ ha)⟩, h.cpu e hmem, ?_, ?_⟩
  · intro htag
    exact hfresh.2.2 _ htag _ (List.mem_singleton_self _) rfl
  · exact fun a ha => hlast a ha e (List.mem_singleton_self e)

theorem InOrder.shift (h : InOrder P c sent s) (hs : Shift s s') : InOrder P c sent s' :=
  ⟨h.known.shift hs, fun hnone => (h.idle hnone).shift hs,
    fun e he hP t d hx => (h.busy e he hP t d hx).shift hs⟩

section

omit [DecidableEq K] [DecidableEq D]

/-- A packet that goes nowhere near a limiter. -/
theorem InOrder.bypass (h : InOrder P c sent s) (hl : Steady.Last P c sent e) (hnone : e.1 = none)
    (hb : Bypassed e.2.1 e.2.2.tag s s') : InOrder P c (sent ++ [e]) s' := by
  have hknown : Known ((sent ++ [e]).map fun e => e.2.2.tag) s' := by
    rw [List.map_append]
    exact hb.known h.known
  by_cases he : P e
  · -- none before it has been sent to a limiter either
    have hold : ∀ a ∈ sent, P a → a.1 = none := by
      intro a ha hP
      rcases hx : a.1 with _ | x
      · rfl
      · exact absurd ((hl.steady a ha hP he x hx).symm.trans hnone) (Option.some_ne_none x)
    have hall : ∀ a ∈ sent ++ [e], P a → a.1 = none := by
      intro a ha hP
      rcases List.mem_append.1 ha with ha | ha
      · exact hold a ha hP
      · rw [List.mem_singleton.1 ha]
        exact hnone
    rw [hl.cpu he] at hb
    refine ⟨hknown, fun _ => ?_, fun a ha hP t d hx => ?_⟩
    · rw [flowTags_append_of_pos he]
      exact (h.idle hold).bypass h.known hl.fresh hb
    · exact absurd (hx.symm.trans (hall a ha hP)) (Option.some_ne_none _)
  · have hx : e.2.2.tag ∉ flowTags P sent := fun hmem => hl.fresh (flowTags_subset hmem)
    refine ⟨hknown, fun hall => ?_, fun a ha hP t d hsome => ?_⟩
    · rw [flowTags_append_of_neg he]
      exact (h.idle fun a ha => hall a (List.mem_append_left _ ha)).congr (hb.alike hx)
    · rw [flowTags_append_of_neg he]
      rcases List.mem_append.1 ha with ha | ha
      · exact (h.busy a ha hP t d hsome).congr (hb.alike hx)
      · exact absurd (List.mem_singleton.1 ha ▸ hP) he

/-- A packet of the flow finds the flow on the way to its limiter. -/
theorem InOrder.flow (h : InOrder P c sent s) (hl : Steady.Last P c sent e)
    (he : P e) {t : K} {d : D} (hsome : e.1 = some (t, d)) : Flow (flowTags P sent) t d c s := by
  by_cases hall : ∀ a ∈ sent, P a → a.1 = none
  · exact (h.idle hall).flow t d
  · simp only [not_forall] at hall
    obtain ⟨a, ha, hP, hne⟩ := hall
    obtain ⟨x, hx⟩ := Option.ne_none_iff_exists'.1 hne
    obtain rfl : x = (t, d) := Option.some.inj ((hl.steady a ha hP he x hx).symm.trans hsome)
    exact h.busy a ha hP t d hx

/-- A packet that is sent to a limiter: what it does to the flow it belongs to, if it belongs to it,
and to the flow if it does not. -/
theorem InOrder.send (h : InOrder P c sent s) (hl : Steady.Last P c sent e) {t : K} {d : D}
    (hsome : e.1 = some (t, d)) (hknown : Known ((sent ++ [e]).map fun e => e.2.2.tag) s')
    (hself : P e → Flow (flowTags P sent) t d c s → Flow (flowTags P sent ++ [e.2.2.tag]) t d c s')
    (hother : ¬ P e → Alike (flowTags P sent) s s') : InOrder P c (sent ++ [e]) s' := by
  have hmem : e ∈ sent ++ [e] := List.mem_append_right _ (List.mem_singleton_self e)
  refine ⟨hknown, fun hall => ?_, fun a ha hP t' d' hx => ?_⟩
  · have he : ¬ P e := fun he => absurd (hsome.symm.trans (hall e hmem he)) (Option.some_ne_none _)
    rw [flowTags_append_of_neg he]
    exact (h.idle fun a ha => hall a (List.mem_append_left _ ha)).congr (hother he)
  · by_cases he : P e
    · obtain ⟨rfl, rfl⟩ : t' = t ∧ d' = d := by
        refine Prod.mk.inj (Option.some.inj ?_)
        rcases List.mem_append.1 ha with ha | ha
        · exact (hl.steady a ha hP he _ hx).symm.trans hsome
        · exact hx.symm.trans (List.mem_singleton.1 ha ▸ hsome)
      rw [flowTags_append_of_pos he]
      exact hself he (h.flow hl he hsome)
    · rw [flowTags_append_of_neg he]
      rcases List.mem_append.1 ha with ha | ha
      · exact (h.busy a ha hP t' d' hx).congr (hother he)
      · exact absurd (List.mem_singleton.1 ha ▸ hP) he

end

theorem InOrder.accept (h : InOrder P c sent s) (hl : Steady.Last P c sent e) {t : K} {d : D}
    (hsome : e.1 = some (t, d)) (ha : Accepted t d e.2.1 e.2.2.tag s s') :
    InOrder P c (sent ++ [e]) s' := by
  refine h.send hl hsome ?_ (fun he hflow => ?_) fun _ => ?_
  · rw [List.map_append]
    exact ha.known h.known
  · exact hflow.accept h.known hl.fresh (hl.cpu he ▸ ha)
  · exact ha.alike fun hmem => hl.fresh (flowTags_subset hmem)

omit [DecidableEq K] [DecidableEq D] in
theorem InOrder.drop (h : InOrder P c sent s) (hl : Steady.Last P c sent e) {t : K} {d : D}
    (hsome : e.1 = some (t, d)) : InOrder P c (sent ++ [e]) s := by
  refine h.send hl hsome ?_ (fun _ hflow => hflow.announce h.known hl.fresh) fun _ =>
    ⟨fun _ _ => rfl, fun _ => rfl⟩
  rw [List.map_append]
  exact h.known.mono (List.subset_append_left _ _)

end

/-! ### Operations -/

section

variable [Fintype C] {p : Params} {k : Kernel} {P : Sending K D C → Prop} [DecidablePred P] {c : C}
  {sent : List (Sending K D C)} {s s' : TxState K D C}

/-- An operation that brings no packet is one of the limiters. -/
theorem exists_internal (p : Params) (k : Kernel) {op : Op K D C} (hop : op.sent = none) :
    ∃ op' : Rl.Op K D C, op'.Internal ∧ ∀ s, step p k s op = Rl.step p k s op' := by
  cases op with
  | enqueue route c skb => cases hop
  | dequeue r c => exact ⟨.dequeue r c, trivial, fun _ => rfl⟩
  | feedback t d rate => exact ⟨.feedback t d rate, trivial, fun _ => rfl⟩
  | classRate t rate => exact ⟨.classRate t rate, trivial, fun _ => rfl⟩
  | timeout c => exact ⟨.timeout c, trivial, fun _ => rfl⟩
  | tasklet c => exact ⟨.tasklet c, trivial, fun _ => rfl⟩

/-- The byte counts stay right, the history grows, and if no packet is split, `Q` holds in the
end. -/
def Leads (p : Params) (Q : TxState K D C → Prop) (s s' : TxState K D C) : Prop :=
  Occupied p s' ∧ s.trace ⊆ s'.trace ∧ (Unsplit s'.trace → Q s')

theorem step_leads {Q : TxState K D C → Prop} (hQ : ∀ s s', Shift s s' → Q s → Q s')
    (hocc : Occupied p s) (hs : Q s) {op : Op K D C} (hop : op.sent = none) :
    Leads p Q s (step p k s op) := by
  obtain ⟨op', hop', hstep⟩ := exists_internal p k hop
  rw [hstep]
  rcases Rl.step_inner_path (p := p) (k := k) s hop' with hpath | hwrite
  · exact shift_invariant hQ hpath hocc hs
  · have hm : Move p k s (Rl.step p k s op') := hwrite.still.move
    exact ⟨hm.occupied hocc, hm.trace_subset, fun _ => hQ _ _ hwrite.still.shift hs⟩

omit [Fintype C] [DecidableEq K] [DecidableEq D] in
theorem bypassed_log (c : C) (skb : Skb) (s : TxState K D C) :
    Bypassed c skb.tag s (s.log (.xmit c skb)) := by
  refine ⟨fun _ _ => rfl, ?_, fun c' hc => ?_⟩
  · show transmitted c (s.trace ++ [.xmit c skb]) = _
    rw [transmitted_append]
    simp [transmitted]
  · show transmitted c' (s.trace ++ [.xmit c skb]) = _
    rw [transmitted_append]
    simp [transmitted, hc.symm]

omit [Fintype C] [DecidableEq K] [DecidableEq D] in
theorem still_log_kfree (why : FreeReason) (skb : Skb) (s : TxState K D C) :
    Shift s (s.log (.kfree why skb)) := by
  refine .still (fun _ _ => rfl) fun c => ?_
  show transmitted c (s.trace ++ [.kfree why skb]) = _
  rw [transmitted_append]
  exact List.append_nil _

omit [Fintype C] in
/-- `iso_rl_enqueue` of a packet that is not split: it is queued, or dropped. -/
theorem isoRlEnqueue_accepted (hocc : Occupied p s) (t : K) (d : D) (pkt : Skb) (c : C) :
    Occupied p (isoRlEnqueue p k (.dest t d) pkt c s).2 ∧
      s.trace ⊆ (isoRlEnqueue p k (.dest t d) pkt c s).2.trace ∧
      (Unsplit (isoRlEnqueue p k (.dest t d) pkt c s).2.trace →
        ((isoRlEnqueue p k (.dest t d) pkt c s).1 = .success ∧
          Accepted t d c pkt.tag s (isoRlEnqueue p k (.dest t d) pkt c s).2) ∨
        ((isoRlEnqueue p k (.dest t d) pkt c s).1 = .drop ∧
          Shift s (isoRlEnqueue p k (.dest t d) pkt c s).2)) := by
  obtain ⟨added, evs, hout, hself, htrace⟩ := load_isoRlEnqueue (k := k) hocc (.dest t d) pkt c
  have htouch := isoRlEnqueue_touches p k (.dest t d) pkt c s
  refine ⟨((Small.enqueue s t d c pkt).move hocc).occupied hocc, ?_, fun hw => ?_⟩
  · rw [htrace]
    exact List.subset_append_left _ _
  · have hevs : Unsplit evs := hw.mono (htrace ▸ List.subset_append_right _ _)
    have hother : ∀ r c', (r, c') ≠ (.dest t d, c) →
        tags (isoRlEnqueue p k (.dest t d) pkt c s).2 r c' = tags s r c' := by
      intro r c' hne
      rw [tags, htouch.q hne, tags]
    have htags := tags_of_add hself
    rcases hout.unsplit hevs with ⟨rfl, rfl, hv, -⟩ | ⟨htag, rfl, hv⟩
    · refine Or.inr ⟨hv, .still (fun r c' => ?_) fun c' => ?_⟩
      · by_cases hx : (r, c') = (.dest t d, c)
        · obtain ⟨rfl, rfl⟩ := Prod.mk.inj hx
          rw [htags]
          exact List.append_nil _
        · exact hother r c' hx
      · rw [htrace, List.append_nil]
    · refine Or.inl ⟨hv, ?_, hother, fun c' => ?_⟩
      · rw [htags, htag]
      · rw [htrace, transmitted_of_accept]

/-- What `iso_enqueue` does with the packet after `iso_tx`. -/
def dispose (c : C) (skb : Skb) (s : TxState K D C) : IsoVerdict → TxState K D C
  | .drop => s.log (.kfree .noRoom skb)
  | .pass => s.log (.xmit c skb)
  | .success => s
  | .error => s

theorem step_enqueue (s : TxState K D C) (route : Option (K × D)) (c : C) (skb : Skb) :
    step p k s (.enqueue route c skb) =
      if p.isoGlobalEnabled then dispose c skb (isoTx p k route skb c s).2
        (isoTx p k route skb c s).1
      else s.log (.xmit c skb) := by
  unfold step isoEnqueue
  dsimp only
  split_ifs
  · cases (isoTx p k route skb c s).1 <;> rfl
  · rfl

omit [DecidableEq K] [DecidableEq D] [DecidableEq C] [Fintype C] in
theorem dispose_trace (c : C) (skb : Skb) (s : TxState K D C) (v : IsoVerdict) :
    s.trace ⊆ (dispose c skb s v).trace := by
  cases v with
  | drop | pass => exact List.subset_append_left _ _
  | success | error => exact fun _ h => h

omit [DecidableEq K] [DecidableEq D] [DecidableEq C] [Fintype C] in
theorem dispose_occupied (c : C) (skb : Skb) (h : Occupied p s) (v : IsoVerdict) :
    Occupied p (dispose c skb s v) := by
  cases v <;> exact h

/-- A packet that is sent to a limiter. -/
theorem isoTx_inOrder (t : K) (d : D) (c' : C) (skb : Skb) (hocc : Occupied p s) :
    Leads p (fun s' => Steady.Last P c sent (some (t, d), c', skb) → InOrder P c sent s →
        InOrder P c (sent ++ [(some (t, d), c', skb)]) s') s
      (dispose c' skb (isoTx p k (some (t, d)) skb c' s).2
        (isoTx p k (some (t, d)) skb c' s).1) := by
  obtain ⟨hocc₁, htrace₁, hcases⟩ := isoRlEnqueue_accepted (k := k) hocc t d skb.isoEnableEcn c'
  show Leads p _ s (dispose c' skb
    (isoRlDequeue p k (.dest t d) c' (isoRlEnqueue p k (.dest t d) skb.isoEnableEcn c' s).2).2
    (isoRlEnqueue p k (.dest t d) skb.isoEnableEcn c' s).1)
  generalize isoRlEnqueue p k (.dest t d) skb.isoEnableEcn c' s = out at hocc₁ htrace₁ hcases
  obtain ⟨v, s₁⟩ := out
  dsimp only at hocc₁ htrace₁ hcases ⊢
  have hpath := isoRlDequeue_path (p := p) (k := k) (.dest t d) c' s₁
  generalize (isoRlDequeue p k (.dest t d) c' s₁).2 = s₂ at hpath
  obtain ⟨hocc₂, htrace₂, -⟩ := shift_invariant (P := fun _ => True)
    (fun _ _ _ _ => trivial) hpath hocc₁ trivial
  refine ⟨dispose_occupied c' skb hocc₂ v, ?_, fun hw hl h => ?_⟩
  · exact List.Subset.trans htrace₁ (List.Subset.trans htrace₂ (dispose_trace c' skb s₂ v))
  · have hw₂ := hw.mono (dispose_trace c' skb s₂ v)
    have hin₁ : InOrder P c (sent ++ [(some (t, d), c', skb)]) s₁ := by
      rcases hcases (hw₂.mono htrace₂) with ⟨-, haccept⟩ | ⟨-, hdrop⟩
      · exact h.accept hl rfl haccept
      · exact (h.shift hdrop).drop hl rfl
    have hin₂ := (shift_invariant (fun _ _ hs h => InOrder.shift h hs) hpath hocc₁ hin₁).2.2 hw₂
    rcases hcases (hw₂.mono htrace₂) with ⟨rfl, -⟩ | ⟨rfl, -⟩
    · exact hin₂
    · exact hin₂.shift (still_log_kfree .noRoom skb s₂)

/-- `iso_enqueue`. -/
theorem enqueue_inOrder {e : Sending K D C} (hocc : Occupied p s) :
    Leads p (fun s' => (p.isoGlobalEnabled = false → e.1 = none) → Steady.Last P c sent e →
      InOrder P c sent s →
      InOrder P c (sent ++ [e]) s') s (step p k s (.enqueue e.1 e.2.1 e.2.2)) := by
  obtain ⟨route, c', skb⟩ := e
  have hbypass : Leads p (fun s' => route = none → Steady.Last P c sent (route, c', skb) →
      InOrder P c sent s →
      InOrder P c (sent ++ [(route, c', skb)]) s') s (s.log (.xmit c' skb)) :=
    ⟨hocc, List.subset_append_left _ _, fun _ hnone hl h => h.bypass hl hnone
      (bypassed_log c' skb s)⟩
  rw [step_enqueue]
  by_cases hon : p.isoGlobalEnabled = true
  · rw [if_pos hon]
    cases route with
    | none => exact ⟨hbypass.1, hbypass.2.1, fun hw _ => hbypass.2.2 hw rfl⟩
    | some x =>
      obtain ⟨hocc', htrace, hin⟩ := isoTx_inOrder (k := k) (P := P) x.1 x.2 c' skb hocc
      exact ⟨hocc', htrace, fun hw _ => hin hw⟩
  · rw [if_neg hon]
    exact ⟨hbypass.1, hbypass.2.1, fun hw hoff => hbypass.2.2 hw (hoff (Bool.eq_false_iff.2 hon))⟩

/-- In a run that splits no packet, the packets of the flow are in order. -/
theorem runFrom_inOrder (p : Params) (k : Kernel) (t : RlId K D → ℕ) (ops : List (Op K D C)) :
    Occupied p (runFrom p k t ops) ∧ (Unsplit (runFrom p k t ops).trace →
      Steady p P c (ops.filterMap Op.sent) → InOrder P c (ops.filterMap Op.sent)
        (runFrom p k t ops)) := by
  induction ops using List.reverseRecOn with
  | nil =>
    refine ⟨fun _ _ => ⟨rfl, Nat.zero_le _⟩, fun _ _ => ⟨⟨?_, ?_⟩, fun _ => ⟨?_, .refl _⟩, ?_⟩⟩
    · exact fun _ _ x hx => absurd hx List.not_mem_nil
    · exact fun _ x hx => absurd hx List.not_mem_nil
    · exact fun _ _ x hx => absurd hx List.not_mem_nil
    · exact fun e he => absurd he List.not_mem_nil
  | append_singleton ops op ih =>
    obtain ⟨hocc, hin⟩ := ih
    have hrun : runFrom p k t (ops ++ [op]) = step p k (runFrom p k t ops) op := by
      rw [runFrom, run_append]
      rfl
    rw [hrun, List.filterMap_append]
    rcases hsent : op.sent with _ | e
    · rw [List.filterMap_cons_none hsent, List.filterMap_nil, List.append_nil]
      have hshift : ∀ s s', Shift s s' →
          (Unsplit (runFrom p k t ops).trace → Steady p P c (ops.filterMap Op.sent) →
            InOrder P c (ops.filterMap Op.sent) s) →
          Unsplit (runFrom p k t ops).trace → Steady p P c (ops.filterMap Op.sent) →
            InOrder P c (ops.filterMap Op.sent) s' :=
        fun _ _ hs h hw hst => (h hw hst).shift hs
      obtain ⟨hocc', htrace, hin'⟩ := step_leads (k := k) hshift hocc hin hsent
      exact ⟨hocc', fun hw hst => hin' hw (hw.mono htrace) hst⟩
    · rw [List.filterMap_cons_some hsent, List.filterMap_nil]
      cases op with
      | enqueue route c' skb =>
        cases hsent
        obtain ⟨hocc', htrace, hin'⟩ :=
          enqueue_inOrder (k := k) (P := P) (c := c) (e := (route, c', skb)) hocc
        refine ⟨hocc', fun hw hst => ?_⟩
        have hmem : (route, c', skb) ∈ ops.filterMap Op.sent ++ [(route, c', skb)] :=
          List.mem_append_right _ (List.mem_singleton_self _)
        exact hin' hw (fun hoff => hst.off hoff _ hmem) hst.last.2 (hin (hw.mono htrace) hst.last.1)
      | dequeue | feedback | classRate | timeout | tasklet => cases hsent

/-- Packets of one flow leave in the order in which they came. -/
theorem runFrom_flow_sublist {p : Params} {k : Kernel} {t : RlId K D → ℕ} {ops : List (Op K D C)}
    (hw : Unsplit (runFrom p k t ops).trace) (hst : Steady p P c (ops.filterMap Op.sent)) :
    ((transmitted c (runFrom p k t ops).trace).filter
      (· ∈ flowTags P (ops.filterMap Op.sent))).Sublist (flowTags P (ops.filterMap Op.sent)) := by
  have h := (runFrom_inOrder p k t ops).2 hw hst
  by_cases hall : ∀ e ∈ ops.filterMap Op.sent, P e → e.1 = none
  · exact (h.idle hall).order
  · simp only [not_forall] at hall
    obtain ⟨e, he, hP, hne⟩ := hall
    obtain ⟨x, hx⟩ := Option.ne_none_iff_exists'.1 hne
    have horder := (h.busy e he hP x.1 x.2 hx).order
    unfold stream at horder
    rw [List.append_assoc, List.filter_append] at horder
    exact (List.sublist_append_left _ _).trans horder

end

end Qdisc

end EyeQ
