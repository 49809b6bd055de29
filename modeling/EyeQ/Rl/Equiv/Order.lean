import EyeQ.Fifo.Expand
import EyeQ.Rl.Equiv.Move

/-!
# Order

For the queue of one destination on one CPU, take the packets it accepted, with each packet that was
segmented replaced in place by its segments (`accepted`).  What has been transmitted of them, then
what is in the class-level queue, then what is still in the queue itself (`inLine`) is a subsequence
of that, and all of it if no segment was freed for lack of room (`runFrom_order`).

A packet is known by its `tag`: which buffer it is, and its length.  The buffers a run uses are
those of the packets it accepts and of the segments it is given (`allocated`), and they are
different from each other.

The history alone says which packets a queue accepted, so that no packet belongs to two queues is a
fact about histories (`booked`).  Each move is a step of the line of each queue: a packet that
arrives joins one line, a packet that is segmented is replaced in one line, and all other moves only
shift the boundaries between the three parts.
-/

namespace EyeQ.Rl

open Fifo

variable {K D C : Type} [DecidableEq K] [DecidableEq D] [DecidableEq C]

/-! ### What the history says -/

/-- The packets that an event brings into the system. -/
def Event.alloc : Event K D C → List (ℕ × ℕ)
  | .accept (.dest _ _) _ skb => [skb.tag]
  | .gsoSegment _ _ _ (some segs) => segs.map Skb.tag
  | _ => []

/-- All packets a run has brought into the system. -/
def allocated (τ : List (Event K D C)) : List (ℕ × ℕ) := τ.flatMap Event.alloc

/-- What an event does to the packets that the queue of destination `d` of class `t` on CPU `c` has
accepted. -/
def Event.comeIn (t : K) (d : D) (c : C) (l : List (ℕ × ℕ)) : Event K D C → List (ℕ × ℕ)
  | .accept r c' skb => if (r, c') = (.dest t d, c) then l ++ [skb.tag] else l
  | .gsoSegment _ _ skb (some segs) => expand skb.tag (segs.map Skb.tag) l
  | _ => l

/-- The packets that the queue of destination `d` of class `t` on CPU `c` has accepted, in order,
with each packet replaced by its segments wherever it was split. -/
def accepted (t : K) (d : D) (c : C) (τ : List (Event K D C)) : List (ℕ × ℕ) :=
  τ.foldl (Event.comeIn t d c) []

/-- The packets handed to `skb_xmit` on CPU `c`, in order. -/
def transmitted (c : C) (τ : List (Event K D C)) : List (ℕ × ℕ) :=
  τ.filterMap fun
    | .xmit c' skb => if c' = c then some skb.tag else none
    | _ => none

/-- No packet was freed for lack of room. -/
def Lossless (τ : List (Event K D C)) : Prop := ∀ skb, Event.kfree .noRoom skb ∉ τ

/-- `skb_gso_segment` has not failed. -/
def Segmented (τ : List (Event K D C)) : Prop := ∀ r c skb, Event.gsoSegment r c skb none ∉ τ

omit [DecidableEq K] [DecidableEq D] [DecidableEq C] in
theorem allocated_append (τ evs : List (Event K D C)) :
    allocated (τ ++ evs) = allocated τ ++ allocated evs :=
  List.flatMap_append

omit [DecidableEq K] [DecidableEq D] [DecidableEq C] in
theorem allocated_singleton (e : Event K D C) : allocated [e] = e.alloc :=
  List.flatMap_singleton ..

theorem accepted_append (t : K) (d : D) (c : C) (τ evs : List (Event K D C)) :
    accepted t d c (τ ++ evs) = evs.foldl (Event.comeIn t d c) (accepted t d c τ) :=
  List.foldl_append

omit [DecidableEq K] [DecidableEq D] in
theorem transmitted_append (c : C) (τ evs : List (Event K D C)) :
    transmitted c (τ ++ evs) = transmitted c τ ++ transmitted c evs :=
  List.filterMap_append

omit [DecidableEq K] [DecidableEq D] [DecidableEq C] in
theorem Lossless.of_append {τ evs : List (Event K D C)} (h : Lossless (τ ++ evs)) : Lossless τ :=
  fun skb hmem => h skb (List.mem_append_left _ hmem)

/-! ### No packet belongs to two queues -/

/-- What is known of the accepted packets. -/
structure Booked (τ : List (Event K D C)) : Prop where
  sub : ∀ t d c x, x ∈ accepted t d c τ → x ∈ allocated τ
  nodup : ∀ t d c, (accepted t d c τ).Nodup
  owner : ∀ t d c t' d' c' x, x ∈ accepted t d c τ → x ∈ accepted t' d' c' τ →
    t = t' ∧ d = d' ∧ c = c'

/-- An event that brings in nothing and accepts nothing. -/
theorem Booked.neutral {τ : List (Event K D C)} (h : Booked τ) (e : Event K D C)
    (halloc : e.alloc = []) (hcome : ∀ t d c l, Event.comeIn t d c l e = l) :
    Booked (τ ++ [e]) := by
  have hacc : ∀ t d c, accepted t d c (τ ++ [e]) = accepted t d c τ := by
    intro t d c
    rw [accepted_append]
    exact hcome t d c _
  have hall : allocated (τ ++ [e]) = allocated τ := by
    rw [allocated_append, allocated_singleton, halloc, List.append_nil]
  constructor
  · intro t d c x
    rw [hacc, hall]
    exact h.sub t d c x
  · intro t d c
    rw [hacc]
    exact h.nodup t d c
  · intro t d c t' d' c' x
    rw [hacc, hacc]
    exact h.owner t d c t' d' c' x

/-- A new packet is accepted by one queue. -/
theorem Booked.accept {τ : List (Event K D C)} (h : Booked τ) (t₀ : K) (d₀ : D) (c₀ : C)
    (skb : Skb) (hnew : skb.tag ∉ allocated τ) : Booked (τ ++ [.accept (.dest t₀ d₀) c₀ skb]) := by
  have hall : allocated (τ ++ [.accept (.dest t₀ d₀) c₀ skb]) = allocated τ ++ [skb.tag] :=
    allocated_append ..
  have hmem : ∀ t d c x, x ∈ accepted t d c (τ ++ [.accept (.dest t₀ d₀) c₀ skb]) →
      x ∈ accepted t d c τ ∨ (x = skb.tag ∧ t₀ = t ∧ d₀ = d ∧ c₀ = c) := by
    intro t d c x hx
    rw [accepted_append, List.foldl_cons, List.foldl_nil, Event.comeIn] at hx
    split_ifs at hx with hq
    · rw [Prod.mk.injEq, RlId.dest.injEq] at hq
      rcases List.mem_append.mp hx with hx | hx
      · exact Or.inl hx
      · exact Or.inr ⟨List.mem_singleton.mp hx, hq.1.1, hq.1.2, hq.2⟩
    · exact Or.inl hx
  constructor
  · intro t d c x hx
    rw [hall]
    rcases hmem t d c x hx with hx | ⟨rfl, -⟩
    · exact List.mem_append_left _ (h.sub t d c x hx)
    · exact List.mem_append_right _ (List.mem_singleton_self _)
  · intro t d c
    rw [accepted_append, List.foldl_cons, List.foldl_nil, Event.comeIn]
    split_ifs
    · rw [← List.concat_eq_append]
      exact (h.nodup t d c).concat fun hx => hnew (h.sub t d c _ hx)
    · exact h.nodup t d c
  · -- the new packet was in no queue before
    intro t d c t' d' c' x hx hx'
    rcases hmem t d c x hx with hx | ⟨rfl, rfl, rfl, rfl⟩
    · rcases hmem t' d' c' x hx' with hx' | ⟨rfl, -⟩
      · exact h.owner t d c t' d' c' x hx hx'
      · exact absurd (h.sub t d c _ hx) hnew
    · rcases hmem t' d' c' _ hx' with hx' | ⟨-, rfl, rfl, rfl⟩
      · exact absurd (h.sub t' d' c' _ hx') hnew
      · exact ⟨rfl, rfl, rfl⟩

/-- A packet is replaced by new segments, in the queue it belongs to. -/
theorem Booked.split {τ : List (Event K D C)} (h : Booked τ) (r : RlId K D) (c₀ : C) (skb : Skb)
    (segs : List Skb) (hnew : ∀ y ∈ segs.map Skb.tag, y ∉ allocated τ)
    (hnodup : (segs.map Skb.tag).Nodup) : Booked (τ ++ [.gsoSegment r c₀ skb (some segs)]) := by
  have hall : allocated (τ ++ [.gsoSegment r c₀ skb (some segs)])
      = allocated τ ++ segs.map Skb.tag := by
    rw [allocated_append, allocated_singleton]
    rfl
  have hacc : ∀ t d c, accepted t d c (τ ++ [.gsoSegment r c₀ skb (some segs)])
      = expand skb.tag (segs.map Skb.tag) (accepted t d c τ) := by
    intro t d c
    rw [accepted_append]
    rfl
  constructor
  · intro t d c x hx
    rw [hacc] at hx
    rw [hall]
    rcases mem_expand.mp hx with ⟨hx, -⟩ | ⟨-, hx⟩
    · exact List.mem_append_left _ (h.sub t d c x hx)
    · exact List.mem_append_right _ hx
  · intro t d c
    rw [hacc]
    exact nodup_expand (h.nodup t d c) hnodup fun y hy hmem => hnew y hy (h.sub t d c y hmem)
  · -- two queues with a segment in common had the segmented packet in common
    intro t d c t' d' c' x hx hx'
    rw [hacc] at hx hx'
    rcases mem_expand.mp hx with ⟨hx, -⟩ | ⟨ha, hx⟩
    · rcases mem_expand.mp hx' with ⟨hx', -⟩ | ⟨-, hx'⟩
      · exact h.owner t d c t' d' c' x hx hx'
      · exact absurd (h.sub t d c x hx) (hnew x hx')
    · rcases mem_expand.mp hx' with ⟨hx', -⟩ | ⟨ha', -⟩
      · exact absurd (h.sub t' d' c' x hx') (hnew x hx)
      · exact h.owner t d c t' d' c' _ ha ha'

/-- A history that brings in no packet twice accepts no packet twice. -/
theorem booked (τ : List (Event K D C)) (hτ : (allocated τ).Nodup) : Booked τ := by
  induction τ using List.reverseRecOn with
  | nil =>
    refine ⟨fun _ _ _ x hx => absurd hx List.not_mem_nil, fun _ _ _ => List.nodup_nil, ?_⟩
    exact fun _ _ _ _ _ _ x hx => absurd hx List.not_mem_nil
  | append_singleton τ e ih =>
    rw [allocated_append, List.nodup_append] at hτ
    obtain ⟨hold, hone, hdisj⟩ := hτ
    have h := ih hold
    rw [allocated_singleton] at hone hdisj
    cases e with
    | accept r c skb =>
      cases r with
      | txc t =>
        -- a packet accepted by a class-level queue has come in before
        refine h.neutral _ rfl fun t' d' c' l => ?_
        rw [Event.comeIn, if_neg (by simp)]
      | dest t d =>
        exact h.accept t d c skb fun hmem => hdisj _ hmem _ (List.mem_singleton_self _) rfl
    | gsoSegment r c skb segs =>
      cases segs with
      | none => exact h.neutral _ rfl fun _ _ _ _ => rfl
      | some segs => exact h.split r c skb segs (fun y hy hmem => hdisj y hmem y hy rfl) hone
    | trim r c skb => exact h.neutral _ rfl fun _ _ _ _ => rfl
    | kfree why skb => exact h.neutral _ rfl fun _ _ _ _ => rfl
    | head r c skb => exact h.neutral _ rfl fun _ _ _ _ => rfl
    | charge r c size tokens bytes => exact h.neutral _ rfl fun _ _ _ _ => rfl
    | xmit c skb => exact h.neutral _ rfl fun _ _ _ _ => rfl

/-! ### Lines -/

/-- The packets in a queue. -/
def tags (s : TxState K D C) (r : RlId K D) (c : C) : List (ℕ × ℕ) := (s.q r c).list.map Skb.tag

/-- What a destination's queue has accepted and is not lost: the packets that have been transmitted,
those in the class-level queue, and those in the queue. -/
def inLine (t : K) (d : D) (c : C) (s : TxState K D C) : List (ℕ × ℕ) :=
  (transmitted c s.trace).filter (· ∈ accepted t d c s.trace) ++
    (tags s (.txc t) c).filter (· ∈ accepted t d c s.trace) ++ tags s (.dest t d) c

/-- The line of a destination's queue. -/
def line (t : K) (d : D) (c : C) (s : TxState K D C) : Line (ℕ × ℕ) :=
  ⟨accepted t d c s.trace, inLine t d c s⟩

/-- What is transmitted has come in, what a class-level queue holds belongs to one of its
destinations, and every line is in order. -/
structure Orderly (s : TxState K D C) : Prop where
  sent : ∀ c x, x ∈ transmitted c s.trace → x ∈ allocated s.trace
  held : ∀ t c x, x ∈ tags s (.txc t) c → ∃ d, x ∈ accepted t d c s.trace
  order : ∀ t d c, Ordered (Lossless s.trace) (line t d c s)

section

variable {s s' : TxState K D C}

/-- What every move of packets does to the histories. -/
structure Extends (s s' : TxState K D C) : Prop where
  alloc : ∀ x, x ∈ allocated s.trace → x ∈ allocated s'.trace
  lossless : Lossless s'.trace → Lossless s.trace

/-- The line of a queue is in order after a step of it. -/
theorem Orderly.order_of_step (h : Orderly s) (he : Extends s s') (t : K) (d : D) (c : C)
    (hstep : Fifo.Step (Lossless s'.trace) (line t d c s) (line t d c s')) :
    Ordered (Lossless s'.trace) (line t d c s') :=
  ordered_step hstep ⟨(h.order t d c).sublist, fun hl => (h.order t d c).all (he.lossless hl)⟩

/-- What a class-level queue holds has come in. -/
theorem Orderly.held_allocated (h : Orderly s) (hb : Booked s.trace) {t : K} {c : C} {x : ℕ × ℕ}
    (hx : x ∈ tags s (.txc t) c) : x ∈ allocated s.trace := by
  obtain ⟨d, hd⟩ := h.held t c x hx
  exact hb.sub t d c x hd

/-- The packets of a list that belong to a queue. -/
theorem filter_mem_congr {l acc acc' : List (ℕ × ℕ)} (h : ∀ x ∈ l, x ∈ acc' ↔ x ∈ acc) :
    l.filter (· ∈ acc') = l.filter (· ∈ acc) :=
  List.filter_congr fun x hx => by rw [decide_eq_decide]; exact h x hx

/-! ### Arrivals -/

/-- The packets `ys` come into one queue, which keeps `kept` of them. -/
structure Arrived (t : K) (d : D) (c : C) (ys kept : List (ℕ × ℕ)) (s s' : TxState K D C) : Prop
    extends Extends s s' where
  sublist : kept.Sublist ys
  all : Lossless s'.trace → kept = ys
  new : ∀ y ∈ ys, y ∉ allocated s.trace
  self : accepted t d c s'.trace = accepted t d c s.trace ++ ys
  other : ∀ t' d' c', (t', d', c') ≠ (t, d, c) →
    accepted t' d' c' s'.trace = accepted t' d' c' s.trace
  sent : ∀ c', transmitted c' s'.trace = transmitted c' s.trace
  classes : ∀ t' c', tags s' (.txc t') c' = tags s (.txc t') c'
  dest : tags s' (.dest t d) c = tags s (.dest t d) c ++ kept
  dests : ∀ t' d' c', (t', d', c') ≠ (t, d, c) →
    tags s' (.dest t' d') c' = tags s (.dest t' d') c'

section

variable {t : K} {d : D} {c : C} {ys kept : List (ℕ × ℕ)}

/-- A packet that was there before is none of the new ones. -/
theorem Arrived.mem_accepted (ha : Arrived t d c ys kept s s') {x : ℕ × ℕ}
    (hx : x ∈ allocated s.trace) :
    x ∈ accepted t d c s'.trace ↔ x ∈ accepted t d c s.trace := by
  rw [ha.self, List.mem_append]
  exact or_iff_left fun hy => ha.new x hy hx

theorem Arrived.line_self (ha : Arrived t d c ys kept s s') (h : Orderly s) (hb : Booked s.trace) :
    Fifo.Step (Lossless s'.trace) (line t d c s) (line t d c s') := by
  refine .arrive ys kept ha.sublist ha.all ha.self ?_
  show inLine t d c s' = inLine t d c s ++ kept
  unfold inLine
  rw [ha.sent, ha.classes, ha.dest, ← List.append_assoc,
    filter_mem_congr fun x hx => ha.mem_accepted (h.sent c x hx),
    filter_mem_congr fun x hx => ha.mem_accepted (h.held_allocated hb hx)]

theorem Arrived.orderly (ha : Arrived t d c ys kept s s') (h : Orderly s) (hb : Booked s.trace) :
    Orderly s' := by
  constructor
  · intro c' x hx
    rw [ha.sent] at hx
    exact ha.alloc x (h.sent c' x hx)
  · intro t' c' x hx
    rw [ha.classes] at hx
    obtain ⟨d', hd⟩ := h.held t' c' x hx
    refine ⟨d', ?_⟩
    by_cases hq : (t', d', c') = (t, d, c)
    · obtain ⟨rfl, rfl, rfl⟩ : t' = t ∧ d' = d ∧ c' = c := by simpa using hq
      rw [ha.self]
      exact List.mem_append_left _ hd
    · rw [ha.other t' d' c' hq]
      exact hd
  · intro t' d' c'
    apply h.order_of_step ha.toExtends
    by_cases hq : (t', d', c') = (t, d, c)
    · obtain ⟨rfl, rfl, rfl⟩ : t' = t ∧ d' = d ∧ c' = c := by simpa using hq
      exact ha.line_self h hb
    · refine .idle ?_
      unfold line inLine
      rw [ha.sent, ha.classes, ha.dests t' d' c' hq, ha.other t' d' c' hq]

end

/-! ### Passing to the class level -/

/-- The packet `x` passes from a destination's queue to the class-level queue, and on the way it is
replaced by `ys`, of which `kept` are put in that queue.  A packet that is not split is replaced by
itself. -/
structure Passed (t : K) (d : D) (c : C) (x : ℕ × ℕ) (rest ys kept : List (ℕ × ℕ))
    (s s' : TxState K D C) : Prop extends Extends s s' where
  sublist : kept.Sublist ys
  all : Lossless s'.trace → kept = ys
  new : ∀ y ∈ ys, y ∈ allocated s.trace → y = x
  accepted : ∀ t' d' c', accepted t' d' c' s'.trace = expand x ys (accepted t' d' c' s.trace)
  sent : ∀ c', transmitted c' s'.trace = transmitted c' s.trace
  class_self : tags s' (.txc t) c = tags s (.txc t) c ++ kept
  classes : ∀ t' c', (t', c') ≠ (t, c) → tags s' (.txc t') c' = tags s (.txc t') c'
  dest : tags s (.dest t d) c = x :: rest
  dest' : tags s' (.dest t d) c = rest
  dests : ∀ t' d' c', (t', d', c') ≠ (t, d, c) →
    tags s' (.dest t' d') c' = tags s (.dest t' d') c'

section

variable {t : K} {d : D} {c : C} {x : ℕ × ℕ} {rest ys kept : List (ℕ × ℕ)}

theorem Passed.mem_self (hp : Passed t d c x rest ys kept s s') (h : Orderly s) :
    x ∈ Rl.accepted t d c s.trace := by
  apply (h.order t d c).sublist.subset
  refine List.mem_append_right _ ?_
  rw [hp.dest]
  exact List.mem_cons_self ..

/-- The packet belongs to no other queue, so nothing is replaced there. -/
theorem Passed.other (hp : Passed t d c x rest ys kept s s') (h : Orderly s) (hb : Booked s.trace)
    {t' : K} {d' : D} {c' : C} (hq : (t', d', c') ≠ (t, d, c)) :
    x ∉ Rl.accepted t' d' c' s.trace ∧
      Rl.accepted t' d' c' s'.trace = Rl.accepted t' d' c' s.trace := by
  have hx : x ∉ Rl.accepted t' d' c' s.trace := by
    intro hx
    obtain ⟨rfl, rfl, rfl⟩ := hb.owner t' d' c' t d c x hx (hp.mem_self h)
    exact hq rfl
  exact ⟨hx, by rw [hp.accepted, expand_of_notMem hx]⟩

/-- What has been put in the class-level queue belongs to no other queue. -/
theorem Passed.kept_other (hp : Passed t d c x rest ys kept s s') (h : Orderly s)
    (hb : Booked s.trace) {t' : K} {d' : D} {c' : C} (hq : (t', d', c') ≠ (t, d, c)) :
    ∀ y ∈ kept, y ∉ Rl.accepted t' d' c' s.trace := by
  intro y hy hmem
  rw [hp.new y (hp.sublist.subset hy) (hb.sub t' d' c' y hmem)] at hmem
  exact (hp.other h hb hq).1 hmem

/-- In its own line the packet occurs once, at the head of the queue. -/
theorem Passed.once (hp : Passed t d c x rest ys kept s s') (h : Orderly s) (hb : Booked s.trace) :
    x ∉ (transmitted c s.trace).filter (· ∈ Rl.accepted t d c s.trace) ∧
      x ∉ (tags s (.txc t) c).filter (· ∈ Rl.accepted t d c s.trace) ∧ x ∉ rest := by
  have hline : (inLine t d c s).Nodup := (h.order t d c).sublist.nodup (hb.nodup t d c)
  unfold inLine at hline
  rw [hp.dest, List.nodup_append, List.nodup_cons] at hline
  obtain ⟨-, ⟨hrest, -⟩, hfront⟩ := hline
  refine ⟨fun hx => ?_, fun hx => ?_, hrest⟩
  · exact hfront x (List.mem_append_left _ hx) x (List.mem_cons_self ..) rfl
  · exact hfront x (List.mem_append_right _ hx) x (List.mem_cons_self ..) rfl

/-- Before and after, the same packets in front of it belong to the queue. -/
theorem Passed.filter_front (hp : Passed t d c x rest ys kept s s') (h : Orderly s)
    {l : List (ℕ × ℕ)} (hl : ∀ y ∈ l, y ∈ allocated s.trace)
    (hx : x ∉ l.filter (· ∈ Rl.accepted t d c s.trace)) :
    l.filter (· ∈ Rl.accepted t d c s'.trace) = l.filter (· ∈ Rl.accepted t d c s.trace) := by
  refine filter_mem_congr fun y hy => ?_
  rw [hp.accepted, mem_expand]
  constructor
  · rintro (⟨hy', -⟩ | ⟨-, hys⟩)
    · exact hy'
    · rw [hp.new y hys (hl y hy)]
      exact hp.mem_self h
  · intro hy'
    refine Or.inl ⟨hy', fun hyx => hx ?_⟩
    rw [← hyx]
    exact List.mem_filter.mpr ⟨hy, decide_eq_true hy'⟩

theorem Passed.line_self (hp : Passed t d c x rest ys kept s s') (h : Orderly s)
    (hb : Booked s.trace) :
    Fifo.Step (Lossless s'.trace) (line t d c s) (line t d c s') := by
  obtain ⟨hsent, hheld, hrest⟩ := hp.once h hb
  -- what is put in the class-level queue takes the place that the packet had in the line
  have hkept : kept.filter (· ∈ Rl.accepted t d c s'.trace) = kept := by
    refine List.filter_eq_self.mpr fun y hy => decide_eq_true ?_
    rw [hp.accepted, mem_expand]
    exact Or.inr ⟨hp.mem_self h, hp.sublist.subset hy⟩
  refine .split x ys kept hp.sublist hp.all (hp.accepted t d c) ?_
  show inLine t d c s' = expand x kept (inLine t d c s)
  unfold inLine
  rw [hp.sent, hp.class_self, hp.dest, hp.dest', List.filter_append, hkept,
    hp.filter_front h (fun y hy => h.sent c y hy) hsent,
    hp.filter_front h (fun y hy => h.held_allocated hb hy) hheld, expand_append, expand_append,
    expand_of_notMem hsent, expand_of_notMem hheld, expand_cons, if_pos rfl,
    expand_of_notMem hrest]
  simp only [List.append_assoc]

theorem Passed.line_other (hp : Passed t d c x rest ys kept s s') (h : Orderly s)
    (hb : Booked s.trace) {t' : K} {d' : D} {c' : C} (hq : (t', d', c') ≠ (t, d, c)) :
    line t' d' c' s' = line t' d' c' s := by
  unfold line inLine
  rw [hp.sent, hp.dests t' d' c' hq, (hp.other h hb hq).2]
  -- a line of the same class and CPU shares the class-level queue, but not the packet
  by_cases htc : (t', c') = (t, c)
  · obtain ⟨rfl, rfl⟩ := Prod.mk.inj htc
    have hkept : kept.filter (· ∈ Rl.accepted t' d' c' s.trace) = [] := by
      refine List.filter_eq_nil_iff.mpr fun y hy => ?_
      rw [decide_eq_true_eq]
      exact hp.kept_other h hb hq y hy
    rw [hp.class_self, List.filter_append, hkept, List.append_nil]
  · rw [hp.classes t' c' htc]

theorem Passed.orderly (hp : Passed t d c x rest ys kept s s') (h : Orderly s)
    (hb : Booked s.trace) : Orderly s' := by
  -- a packet that belonged to a queue of the class still does, unless it is the one that passes
  have hstill : ∀ t' d' c' y, y ∈ Rl.accepted t' d' c' s.trace → y ≠ x →
      y ∈ Rl.accepted t' d' c' s'.trace := by
    intro t' d' c' y hy hyx
    rw [hp.accepted, mem_expand]
    exact Or.inl ⟨hy, hyx⟩
  constructor
  · intro c' y hy
    rw [hp.sent] at hy
    exact hp.alloc y (h.sent c' y hy)
  · intro t' c' y hy
    by_cases htc : (t', c') = (t, c)
    · obtain ⟨rfl, rfl⟩ := Prod.mk.inj htc
      rw [hp.class_self, List.mem_append] at hy
      rcases hy with hy | hy
      · obtain ⟨d', hd'⟩ := h.held t' c' y hy
        refine ⟨d', hstill t' d' c' y hd' ?_⟩
        rintro rfl
        obtain ⟨-, rfl, -⟩ := hb.owner t' d' c' t' d c' y hd' (hp.mem_self h)
        exact (hp.once h hb).2.1 (List.mem_filter.mpr ⟨hy, decide_eq_true hd'⟩)
      · refine ⟨d, ?_⟩
        rw [hp.accepted, mem_expand]
        exact Or.inr ⟨hp.mem_self h, hp.sublist.subset hy⟩
    · rw [hp.classes t' c' htc] at hy
      obtain ⟨d', hd'⟩ := h.held t' c' y hy
      refine ⟨d', hstill t' d' c' y hd' ?_⟩
      rintro rfl
      obtain ⟨rfl, -, rfl⟩ := hb.owner t' d' c' t d c y hd' (hp.mem_self h)
      exact htc rfl
  · intro t' d' c'
    apply h.order_of_step hp.toExtends
    by_cases hq : (t', d', c') = (t, d, c)
    · obtain ⟨rfl, rfl, rfl⟩ : t' = t ∧ d' = d ∧ c' = c := by simpa using hq
      exact hp.line_self h hb
    · exact .idle (hp.line_other h hb hq)

end

/-! ### Transmission -/

/-- The packet `x` leaves the head of a class-level queue and is transmitted. -/
structure Sent (t : K) (c : C) (x : ℕ × ℕ) (rest : List (ℕ × ℕ)) (s s' : TxState K D C) : Prop
    extends Extends s s' where
  accepted : ∀ t' d' c', accepted t' d' c' s'.trace = accepted t' d' c' s.trace
  sent : transmitted c s'.trace = transmitted c s.trace ++ [x]
  sents : ∀ c', c' ≠ c → transmitted c' s'.trace = transmitted c' s.trace
  class_self : tags s (.txc t) c = x :: rest
  class_self' : tags s' (.txc t) c = rest
  classes : ∀ t' c', (t', c') ≠ (t, c) → tags s' (.txc t') c' = tags s (.txc t') c'
  dests : ∀ t' d' c', tags s' (.dest t' d') c' = tags s (.dest t' d') c'

section

variable {t : K} {c : C} {x : ℕ × ℕ} {rest : List (ℕ × ℕ)}

theorem Sent.mem_self (hs : Sent t c x rest s s') (h : Orderly s) :
    ∃ d, x ∈ Rl.accepted t d c s.trace := by
  apply h.held t c x
  rw [hs.class_self]
  exact List.mem_cons_self ..

/-- Every line is as before: the packet is still in front of the same packets. -/
theorem Sent.line (hs : Sent t c x rest s s') (h : Orderly s) (hb : Booked s.trace) (t' : K)
    (d' : D) (c' : C) : line t' d' c' s' = line t' d' c' s := by
  unfold Rl.line inLine
  rw [hs.accepted, hs.dests]
  by_cases hc : c' = c
  · subst hc
    rw [hs.sent, List.filter_append]
    by_cases ht : t' = t
    · -- the boundary between the first two parts of the line moves
      subst ht
      have hcons : (x :: rest).filter (· ∈ Rl.accepted t' d' c' s.trace)
          = [x].filter (· ∈ Rl.accepted t' d' c' s.trace)
            ++ rest.filter (· ∈ Rl.accepted t' d' c' s.trace) := List.filter_append [x] rest
      rw [hs.class_self, hs.class_self', hcons]
      simp only [List.append_assoc]
    · -- the packet belongs to another class
      have hx : x ∉ Rl.accepted t' d' c' s.trace := by
        intro hx
        obtain ⟨d, hd⟩ := hs.mem_self h
        exact ht (hb.owner t' d' c' t d c' x hx hd).1
      rw [hs.classes t' c' (by simpa using ht), List.filter_singleton, decide_eq_false hx,
        Bool.cond_false, List.append_nil]
  · rw [hs.sents c' hc, hs.classes t' c' (by simp [hc])]

theorem Sent.orderly (hs : Sent t c x rest s s') (h : Orderly s) (hb : Booked s.trace) :
    Orderly s' := by
  constructor
  · intro c' y hy
    by_cases hc : c' = c
    · subst hc
      rw [hs.sent, List.mem_append, List.mem_singleton] at hy
      rcases hy with hy | rfl
      · exact hs.alloc y (h.sent c' y hy)
      · obtain ⟨d, hd⟩ := hs.mem_self h
        exact hs.alloc y (hb.sub t d c' y hd)
    · rw [hs.sents c' hc] at hy
      exact hs.alloc y (h.sent c' y hy)
  · intro t' c' y hy
    simp only [hs.accepted]
    apply h.held t' c' y
    by_cases htc : (t', c') = (t, c)
    · obtain ⟨rfl, rfl⟩ := Prod.mk.inj htc
      rw [hs.class_self'] at hy
      rw [hs.class_self]
      exact List.mem_cons_of_mem _ hy
    · rwa [hs.classes t' c' htc] at hy
  · intro t' d' c'
    exact h.order_of_step hs.toExtends t' d' c' (.idle (hs.line h hb t' d' c'))

end

/-! ### Events that move no packet -/

/-- The events bring in, accept and transmit nothing. -/
structure Quiet (evs : List (Event K D C)) : Prop where
  alloc : allocated evs = []
  come : ∀ t d c l, evs.foldl (Event.comeIn t d c) l = l
  sent : ∀ c, transmitted c evs = []

theorem Quiet.nil : Quiet ([] : List (Event K D C)) := ⟨rfl, fun _ _ _ _ => rfl, fun _ => rfl⟩

theorem Quiet.append {evs evs' : List (Event K D C)} (h : Quiet evs) (h' : Quiet evs') :
    Quiet (evs ++ evs') where
  alloc := by rw [allocated_append, h.alloc, h'.alloc, List.append_nil]
  come t d c l := by rw [List.foldl_append, h.come, h'.come]
  sent c := by rw [transmitted_append, h.sent, h'.sent, List.append_nil]

theorem Quiet.of_forall {evs : List (Event K D C)} (h : ∀ e ∈ evs, Quiet [e]) : Quiet evs := by
  induction evs with
  | nil => exact .nil
  | cons e evs ih =>
    have hcons := (h e (List.mem_cons_self ..)).append
      (ih fun e' he' => h e' (List.mem_cons_of_mem _ he'))
    exact hcons

theorem Quiet.head (r : RlId K D) (c : C) (skb : Skb) : Quiet [Event.head r c skb] :=
  ⟨rfl, fun _ _ _ _ => rfl, fun _ => rfl⟩

theorem Quiet.charge (r : RlId K D) (c : C) (n m b : ℕ) : Quiet [Event.charge r c n m b] :=
  ⟨rfl, fun _ _ _ _ => rfl, fun _ => rfl⟩

theorem Quiet.kfree (why : FreeReason) (skb : Skb) : Quiet [(Event.kfree why skb : Event K D C)] :=
  ⟨rfl, fun _ _ _ _ => rfl, fun _ => rfl⟩

theorem Quiet.gsoError (r : RlId K D) (c : C) (skb : Skb) : Quiet [Event.gsoSegment r c skb none] :=
  ⟨rfl, fun _ _ _ _ => rfl, fun _ => rfl⟩

/-- Only what a destination's queue accepts has come in. -/
theorem Quiet.acceptTxc (t : K) (c : C) (skb : Skb) :
    Quiet [(Event.accept (.txc t) c skb : Event K D C)] where
  alloc := rfl
  come t' d' c' l := by
    rw [List.foldl_cons, List.foldl_nil, Event.comeIn, if_neg (by simp)]
  sent _ := rfl

theorem Quiet.freed (why : FreeReason) (freed : List Skb) :
    Quiet (freed.map (Event.kfree why) : List (Event K D C)) := by
  apply Quiet.of_forall
  intro e he
  obtain ⟨skb, -, rfl⟩ := List.mem_map.mp he
  exact .kfree why skb

omit [DecidableEq K] [DecidableEq D] [DecidableEq C] in
theorem Extends.of_trace {evs : List (Event K D C)} (h : s'.trace = s.trace ++ evs) :
    Extends s s' where
  alloc x hx := by
    rw [h, allocated_append]
    exact List.mem_append_left _ hx
  lossless hl := by
    rw [h] at hl
    exact hl.of_append

/-- Nothing moves. -/
theorem Orderly.idle (h : Orderly s) {evs : List (Event K D C)} (htrace : s'.trace = s.trace ++ evs)
    (hevs : Quiet evs) (htags : ∀ r c, tags s' r c = tags s r c) : Orderly s' := by
  have hacc : ∀ t d c, accepted t d c s'.trace = accepted t d c s.trace := by
    intro t d c
    rw [htrace, accepted_append, hevs.come]
  have hsent : ∀ c, transmitted c s'.trace = transmitted c s.trace := by
    intro c
    rw [htrace, transmitted_append, hevs.sent, List.append_nil]
  have he : Extends s s' := .of_trace htrace
  constructor
  · intro c x hx
    rw [hsent] at hx
    exact he.alloc x (h.sent c x hx)
  · intro t c x hx
    rw [htags] at hx
    simp only [hacc]
    exact h.held t c x hx
  · intro t d c
    apply h.order_of_step he
    refine .idle ?_
    unfold line inLine
    rw [hacc, hsent, htags, htags]

/-! ### Moves -/

section

omit [DecidableEq K] [DecidableEq D] [DecidableEq C]

theorem tags_of_load {r : RlId K D} {c : C} (h : (s'.q r c).load = (s.q r c).load) :
    tags s' r c = tags s r c :=
  congrArg (fun l : Load => l.list.map Skb.tag) h

theorem tags_of_add {r : RlId K D} {c : C} {added : List Skb}
    (h : (s'.q r c).load = (s.q r c).load.add added) :
    tags s' r c = tags s r c ++ added.map Skb.tag := by
  have hlist : (s'.q r c).list = (s.q r c).list ++ added := congrArg Load.list h
  rw [tags, hlist, List.map_append, tags]

theorem tags_of_remove {r : RlId K D} {c : C} {pkt : Skb} {rest : List Skb} {n : ℕ}
    (hlist : (s.q r c).list = pkt :: rest) (h : (s'.q r c).load = (s.q r c).load.remove n) :
    tags s r c = pkt.tag :: rest.map Skb.tag ∧ tags s' r c = rest.map Skb.tag := by
  have hlist' : (s'.q r c).list = (s.q r c).list.tail := congrArg Load.list h
  rw [tags, tags, hlist', hlist]
  exact ⟨rfl, rfl⟩

end

variable {p : Params} {k : Kernel}

/-- The events of a split that bring in and replace packets, and those that do not. -/
theorem accepted_split (t : K) (d : D) (c : C) (τ : List (Event K D C)) (r : RlId K D) (c' : C)
    (pkt : Skb) (segs freed : List Skb) :
    accepted t d c (τ ++ ([.accept r c' pkt, .gsoSegment r c' pkt (some segs),
        .kfree .segmented pkt] ++ freed.map (.kfree .noRoom)))
      = expand pkt.tag (segs.map Skb.tag) (accepted t d c (τ ++ [.accept r c' pkt])) := by
  rw [accepted_append, List.foldl_append, (Quiet.freed .noRoom freed).come, accepted_append]
  rfl

theorem transmitted_split (c : C) (r : RlId K D) (c' : C) (pkt : Skb) (segs freed : List Skb) :
    transmitted c ([.accept r c' pkt, .gsoSegment r c' pkt (some segs), .kfree .segmented pkt]
      ++ freed.map (.kfree .noRoom) : List (Event K D C)) = [] := by
  rw [transmitted_append, (Quiet.freed .noRoom freed).sent]
  rfl

theorem allocated_split (r : RlId K D) (c' : C) (pkt : Skb) (segs freed : List Skb) :
    allocated ([.accept r c' pkt, .gsoSegment r c' pkt (some segs), .kfree .segmented pkt]
      ++ freed.map (.kfree .noRoom) : List (Event K D C))
        = (Event.accept r c' pkt : Event K D C).alloc ++ segs.map Skb.tag := by
  rw [allocated_append, (Quiet.freed .noRoom freed).alloc, List.append_nil]
  simp [allocated, Event.alloc]

omit [DecidableEq K] [DecidableEq D] [DecidableEq C] in
/-- If nothing was freed for lack of room, everything was kept. -/
theorem kept_of_lossless {τ : List (Event K D C)} {segs kept freed : List Skb}
    (hall : freed = [] → kept = segs) (hfreed : ∀ skb ∈ freed, Event.kfree .noRoom skb ∈ τ)
    (hl : Lossless τ) : kept.map Skb.tag = segs.map Skb.tag := by
  cases freed with
  | nil => rw [hall rfl]
  | cons skb freed => exact absurd (hfreed skb (List.mem_cons_self ..)) (hl skb)

/-- A packet arrives. -/
theorem arrive_orderly (h : Orderly s) (hb : Booked s.trace) (hn : (allocated s'.trace).Nodup)
    (t : K) (d : D) (c : C) (pkt : Skb) (v : IsoVerdict) (added : List Skb) (bytes : ℕ)
    (evs : List (Event K D C)) (hout : Outcome p k (.dest t d) c pkt bytes v added evs)
    (hself : (s'.q (.dest t d) c).load = (s.q (.dest t d) c).load.add added)
    (hother : ∀ r' c', (r', c') ≠ (.dest t d, c) → (s'.q r' c').load = (s.q r' c').load)
    (htrace : s'.trace = s.trace ++ evs) : Orderly s' := by
  have he : Extends s s' := .of_trace htrace
  have hclasses : ∀ t' c', tags s' (.txc t') c' = tags s (.txc t') c' :=
    fun t' c' => tags_of_load (hother _ _ (by simp))
  have hdest := tags_of_add hself
  have hdests : ∀ t' d' c', (t', d', c') ≠ (t, d, c) →
      tags s' (.dest t' d') c' = tags s (.dest t' d') c' :=
    fun t' d' c' hq => tags_of_load (hother _ _ fun hx => hq (by simpa [and_assoc] using hx))
  rw [htrace, allocated_append, List.nodup_append] at hn
  obtain ⟨-, hone, hnew⟩ := hn
  -- refused packets leave everything as it is
  have hquiet : Quiet evs → added = [] → Orderly s' := by
    rintro hq rfl
    refine h.idle htrace hq fun r' c' => ?_
    by_cases hx : (r', c') = (.dest t d, c)
    · obtain ⟨rfl, rfl⟩ := Prod.mk.inj hx
      simpa using hdest
    · exact tags_of_load (hother r' c' hx)
  have hone_accept : ∀ t' d' c', accepted t' d' c' (s.trace ++ [.accept (.dest t d) c pkt])
      = if (t', d', c') = (t, d, c) then accepted t' d' c' s.trace ++ [pkt.tag]
        else accepted t' d' c' s.trace := by
    intro t' d' c'
    rw [accepted_append, List.foldl_cons, List.foldl_nil, Event.comeIn]
    refine if_congr ?_ rfl rfl
    simp only [Prod.mk.injEq, RlId.dest.injEq]
    constructor
    · rintro ⟨⟨rfl, rfl⟩, rfl⟩
      exact ⟨rfl, rfl, rfl⟩
    · rintro ⟨rfl, rfl, rfl⟩
      exact ⟨⟨rfl, rfl⟩, rfl⟩
  cases hout with
  | drop hfull => exact hquiet .nil rfl
  | error hgso => exact hquiet (.gsoError _ c pkt) rfl
  | whole pkt' htag hroom =>
    have ha : Arrived t d c [pkt.tag] [pkt.tag] s s' :=
      { he with
        sublist := List.Sublist.refl _
        all := fun _ => rfl
        new := fun y hy hmem => hnew y hmem y hy rfl
        self := by rw [htrace, hone_accept, if_pos rfl]
        other := fun t' d' c' hq => by rw [htrace, hone_accept, if_neg hq]
        sent := fun c' => by rw [htrace, transmitted_append]; exact List.append_nil _
        classes := hclasses
        dest := by rw [hdest, List.map_cons, htag, List.map_nil]
        dests := hdests }
    exact ha.orderly h hb
  | split segs kept freed hgso hsub hall hbytes =>
    rw [allocated_split] at hone hnew
    have hx : ∀ t' d' c', pkt.tag ∉ accepted t' d' c' s.trace := fun t' d' c' hx =>
      hnew _ (hb.sub t' d' c' _ hx) _ (List.mem_append_left _ (List.mem_singleton_self _)) rfl
    have ha : Arrived t d c (segs.map Skb.tag) (added.map Skb.tag) s s' :=
      { he with
        sublist := hsub.map _
        all := kept_of_lossless hall fun skb hskb => by rw [htrace]; simp [hskb]
        new := fun y hy hmem => hnew y hmem y (List.mem_append_right _ hy) rfl
        self := by
          rw [htrace, accepted_split, hone_accept, if_pos rfl, expand_append,
            expand_of_notMem (hx t d c), expand_singleton]
        other := fun t' d' c' hq => by
          rw [htrace, accepted_split, hone_accept, if_neg hq, expand_of_notMem (hx t' d' c')]
        sent := fun c' => by
          rw [htrace, transmitted_append, transmitted_split, List.append_nil]
        classes := hclasses
        dest := hdest
        dests := hdests }
    exact ha.orderly h hb

/-- A packet passes to the class level, where there is room for it and segmentation does not
fail. -/
theorem pass_orderly (h : Orderly s) (hb : Booked s.trace) (hn : (allocated s'.trace).Nodup)
    (hgso : Segmented s'.trace) (t : K) (d : D) (c : C) (pkt : Skb)
    (rest : List Skb) (v : IsoVerdict) (added : List Skb) (bytes : ℕ) (evs : List (Event K D C))
    (n m b : ℕ) (hlist : (s.q (.dest t d) c).list = pkt :: rest)
    (hroom : bytes + pkt.size < p.isoMaxQueueLenBytes)
    (hout : Outcome p k (.txc t) c pkt bytes v added evs)
    (hself : (s'.q (.dest t d) c).load = (s.q (.dest t d) c).load.remove pkt.size)
    (hclass : (s'.q (.txc t) c).load = (s.q (.txc t) c).load.add added)
    (hother : ∀ r' c', (r', c') ≠ (.dest t d, c) → (r', c') ≠ (.txc t, c) →
      (s'.q r' c').load = (s.q r' c').load)
    (htrace : s'.trace = s.trace ++ evs ++ [.charge (.dest t d) c n m b]) : Orderly s' := by
  have he : Extends s s' := .of_trace (htrace.trans (List.append_assoc ..))
  have hclasses : ∀ t' c', (t', c') ≠ (t, c) → tags s' (.txc t') c' = tags s (.txc t') c' :=
    fun t' c' hq => tags_of_load (hother _ _ (by simp) (by simpa using hq))
  obtain ⟨hdest, hdest'⟩ := tags_of_remove hlist hself
  have hdests : ∀ t' d' c', (t', d', c') ≠ (t, d, c) →
      tags s' (.dest t' d') c' = tags s (.dest t' d') c' :=
    fun t' d' c' hq =>
      tags_of_load (hother _ _ (fun hx => hq (by simpa [and_assoc] using hx)) (by simp))
  -- the charge is not seen
  have hcharge : Quiet [(Event.charge (.dest t d) c n m b : Event K D C)] := .charge ..
  have hacc : ∀ t' d' c', accepted t' d' c' s'.trace = accepted t' d' c' (s.trace ++ evs) := by
    intro t' d' c'
    rw [htrace, accepted_append, hcharge.come]
  have hsent : ∀ c', transmitted c' s'.trace = transmitted c' s.trace ++ transmitted c' evs := by
    intro c'
    rw [htrace, transmitted_append, transmitted_append, hcharge.sent, List.append_nil]
  rw [htrace, allocated_append, hcharge.alloc, List.append_nil, allocated_append,
    List.nodup_append] at hn
  obtain ⟨-, -, hnew⟩ := hn
  cases hout with
  | drop hfull => omega -- there was room, `iso_rl_has_space_for` has asked
  | error _ =>
    refine absurd ?_ (hgso (.txc t) c pkt)
    rw [htrace]
    simp
  | whole pkt' htag hroom =>
    -- a packet that is not split is replaced by itself
    have hq : Quiet [(Event.accept (.txc t) c pkt : Event K D C)] := .acceptTxc t c pkt
    have hp : Passed t d c pkt.tag (rest.map Skb.tag) [pkt.tag] [pkt.tag] s s' :=
      { he with
        sublist := List.Sublist.refl _
        all := fun _ => rfl
        new := fun y hy _ => List.mem_singleton.mp hy
        accepted := fun t' d' c' => by rw [hacc, accepted_append, hq.come, expand_self]
        sent := fun c' => by rw [hsent, hq.sent, List.append_nil]
        class_self := by rw [tags_of_add hclass, List.map_cons, htag, List.map_nil]
        classes := hclasses
        dest := hdest
        dest' := hdest'
        dests := hdests }
    exact hp.orderly h hb
  | split segs kept freed _ hsub hall hbytes =>
    have hq : Quiet [(Event.accept (.txc t) c pkt : Event K D C)] := .acceptTxc t c pkt
    rw [allocated_split] at hnew
    have hp : Passed t d c pkt.tag (rest.map Skb.tag) (segs.map Skb.tag) (added.map Skb.tag) s s' :=
      { he with
        sublist := hsub.map _
        all := kept_of_lossless hall fun skb hskb => by rw [htrace]; simp [hskb]
        new := fun y hy hmem => absurd rfl (hnew y hmem y hy)
        accepted := fun t' d' c' => by rw [hacc, accepted_split, accepted_append, hq.come]
        sent := fun c' => by rw [hsent, transmitted_split, List.append_nil]
        class_self := tags_of_add hclass
        classes := hclasses
        dest := hdest
        dest' := hdest'
        dests := hdests }
    exact hp.orderly h hb

/-- A packet is transmitted. -/
theorem transmit_orderly (h : Orderly s) (hb : Booked s.trace) (t : K) (c : C) (pkt : Skb)
    (rest : List Skb) (n m b : ℕ) (hlist : (s.q (.txc t) c).list = pkt :: rest)
    (hself : (s'.q (.txc t) c).load = (s.q (.txc t) c).load.remove pkt.size)
    (hother : ∀ r' c', (r', c') ≠ (.txc t, c) → (s'.q r' c').load = (s.q r' c').load)
    (htrace : s'.trace = s.trace ++ [.xmit c pkt, .charge (.txc t) c n m b]) : Orderly s' := by
  obtain ⟨hclass, hclass'⟩ := tags_of_remove hlist hself
  have hxmit : ∀ c', transmitted c' [.xmit c pkt, (Event.charge (.txc t) c n m b : Event K D C)]
      = if c = c' then [pkt.tag] else [] := by
    intro c'
    by_cases hc : c = c'
    · simp [transmitted, hc]
    · simp [transmitted, hc]
  have hs : Sent t c pkt.tag (rest.map Skb.tag) s s' :=
    { Extends.of_trace htrace with
      accepted := fun t' d' c' => by
        rw [htrace, accepted_append]
        rfl
      sent := by rw [htrace, transmitted_append, hxmit, if_pos rfl]
      sents := fun c' hc => by
        rw [htrace, transmitted_append, hxmit, if_neg (Ne.symm hc), List.append_nil]
      class_self := hclass
      class_self' := hclass'
      classes := fun t' c' hq => tags_of_load (hother _ _ (by simpa using hq))
      dests := fun t' d' c' => tags_of_load (hother _ _ (by simp)) }
  exact hs.orderly h hb

/-- Moves keep every line in order, as long as the packets brought in are different. -/
theorem Move.orderly (hm : Move p k s s') (hn : (allocated s'.trace).Nodup)
    (hgso : Segmented s'.trace)
    (h : (allocated s.trace).Nodup → Segmented s.trace → Orderly s) : Orderly s' := by
  -- what is assumed of the history was true before the move
  have hbefore : ∀ {evs}, s'.trace = s.trace ++ evs →
      (allocated s.trace).Nodup ∧ Segmented s.trace := by
    intro evs htrace
    rw [htrace] at hn hgso
    rw [allocated_append] at hn
    exact ⟨(List.nodup_append.mp hn).1, fun r c skb hmem =>
      hgso r c skb (List.mem_append_left _ hmem)⟩
  cases hm with
  | idle evs hevs hload htx htrace =>
    obtain ⟨hn₀, hgso₀⟩ := hbefore htrace
    refine (h hn₀ hgso₀).idle htrace (.of_forall fun e he => ?_) fun r c => tags_of_load (hload r c)
    obtain ⟨r, c, pkt, rfl⟩ := hevs e he
    exact .head r c pkt
  | arrive t d c pkt v added evs hout hself hother htx htrace =>
    obtain ⟨hn₀, hgso₀⟩ := hbefore htrace
    exact arrive_orderly (h hn₀ hgso₀) (booked _ hn₀) hn t d c pkt v added _ evs hout hself hother
      htrace
  | pass t d c pkt rest v added evs hlist htokens hroom hout hself hclass hother htx htrace =>
    obtain ⟨hn₀, hgso₀⟩ := hbefore (htrace.trans (List.append_assoc ..))
    exact pass_orderly (h hn₀ hgso₀) (booked _ hn₀) hn hgso t d c pkt rest v added _ evs _ _ _ hlist
      hroom hout hself hclass hother htrace
  | transmit t c pkt rest hlist htokens hself hother htx htrace =>
    obtain ⟨hn₀, hgso₀⟩ := hbefore htrace
    exact transmit_orderly (h hn₀ hgso₀) (booked _ hn₀) t c pkt rest _ _ _ hlist hself hother htrace

end

/-! ### Packets are not shortened -/

/-- `iso_rl_enqueue` does not reach `skb_trim`, however full the queue and however long the packet,
as long as their sum is a non-negative `int`. -/
theorem isoRlEnqueue_not_trim (p : Params) (k : Kernel) (r : RlId K D) (pkt : Skb) (c : C)
    (s : TxState K D C) (hfits : (s.q r c).bytesEnqueued + pkt.size < 2 ^ 31)
    (r' : RlId K D) (c' : C) (skb : Skb)
    (hmem : Event.trim r' c' skb ∈ (isoRlEnqueue p k r pkt c s).2.trace) :
    Event.trim r' c' skb ∈ s.trace := by
  obtain ⟨added, evs, hout, happ⟩ := isoRlEnqueue_spec p k r pkt c s (by omega)
  rw [happ.trace, trace_isoRlClock, List.mem_append] at hmem
  rcases hmem with hmem | hmem
  · exact hmem
  · exact absurd hmem hout.not_trim

/-! ### Runs -/

variable [Fintype C]

theorem runFrom_orderly (p : Params) (k : Kernel) (t : RlId K D → ℕ) (ops : List (Op K D C))
    (hn : (allocated (runFrom p k t ops).trace).Nodup)
    (hgso : Segmented (runFrom p k t ops).trace) : Orderly (runFrom p k t ops) := by
  refine runFrom_move_invariant (k := k)
    (P := fun s => (allocated s.trace).Nodup → Segmented s.trace → Orderly s)
    (fun _ _ => ⟨fun _ _ hx => absurd hx List.not_mem_nil, fun _ _ _ hx =>
      absurd hx List.not_mem_nil, fun _ _ _ => ⟨List.Sublist.refl _, fun _ => rfl⟩⟩)
    (fun s s' _ hm h hn hgso => hm.orderly hn hgso h) ops hn hgso

/-- **Order.**  Take a run in which `skb_gso_segment`, when called, succeeds, and in which the
buffers that come in are different.  For every destination's queue, what has been transmitted, what
is in the class-level queue and what is in the queue is a subsequence of what the queue has
accepted; all of it, if nothing was freed for lack of room; and no buffer occurs twice in it.
Packets keep their length: no call of `iso_rl_enqueue` reaches `skb_trim`. -/
theorem runFrom_order (p : Params) (k : Kernel) (t : RlId K D → ℕ) (ops : List (Op K D C))
    (hgso : ∀ r c skb, Event.gsoSegment r c skb none ∉ (runFrom p k t ops).trace)
    (hfresh : ((allocated (runFrom p k t ops).trace).map Prod.fst).Nodup) :
    (∀ t' d c, (inLine t' d c (runFrom p k t ops)).Sublist
      (accepted t' d c (runFrom p k t ops).trace)) ∧
    ((∀ skb, Event.kfree .noRoom skb ∉ (runFrom p k t ops).trace) → ∀ t' d c,
      inLine t' d c (runFrom p k t ops) = accepted t' d c (runFrom p k t ops).trace) ∧
    (∀ t' d c, ((inLine t' d c (runFrom p k t ops)).map Prod.fst).Nodup) ∧
    (∀ r pkt c (s : TxState K D C), (s.q r c).bytesEnqueued + pkt.size < 2 ^ 31 → ∀ r' c' skb,
      Event.trim r' c' skb ∈ (isoRlEnqueue p k r pkt c s).2.trace →
        Event.trim r' c' skb ∈ s.trace) := by
  have hn := hfresh.of_map _
  have h := runFrom_orderly p k t ops hn hgso
  have hb := booked _ hn
  refine ⟨fun t' d c => (h.order t' d c).sublist, fun hl t' d c => (h.order t' d c).all hl, ?_,
    isoRlEnqueue_not_trim p k⟩
  intro t' d c
  -- tags are different, and so are the buffers they name
  have hsub := (h.order t' d c).sublist
  refine List.Nodup.map_on ?_ (hsub.nodup (hb.nodup t' d c))
  intro x hx y hy hxy
  exact List.inj_on_of_nodup_map hfresh (hb.sub t' d c x (hsub.subset hx))
    (hb.sub t' d c y (hsub.subset hy)) hxy

/-- A kernel that cuts every packet in two. -/
def halvingKernel : Kernel where
  ktime n := n * 100000
  ktime_mono := Kernel.monotone_steady
  trylock _ := true
  skbGsoSegment skb := some
    [⟨2 * skb.ptr, 6000, true, 1, 2, 6, 0, 0, by decide⟩,
      ⟨2 * skb.ptr + 1, 6000, true, 1, 2, 6, 0, 0, by decide⟩]

/-- At 500 Mbit/s, a long packet is split on arrival, and its halves are passed on. -/
def longPacket : List (Op Unit Unit Unit) :=
  [.tx () () () (.datagram 1 12000 1 2 6 0 0), .dequeue (.dest () ()) ()]

theorem runFrom_order_longPacket :
    inLine () () () (runFrom { isoRfairInitial := 500 } halvingKernel (fun _ => 0) longPacket)
      = [(2, 6000), (3, 6000)] ∧
    (inLine () () () (runFrom { isoRfairInitial := 500 } halvingKernel (fun _ => 0)
      longPacket)).Sublist (accepted () () ()
        (runFrom { isoRfairInitial := 500 } halvingKernel (fun _ => 0) longPacket).trace) := by
  have hgso : ∀ ev ∈ (runFrom { isoRfairInitial := 500 } halvingKernel (fun _ => 0)
      longPacket).trace,
      (match ev with | .gsoSegment _ _ _ segs => segs.isSome | _ => true) = true := by
    decide +kernel
  have hfresh : ((allocated (runFrom { isoRfairInitial := 500 } halvingKernel (fun _ => 0)
      longPacket).trace).map Prod.fst).Nodup := by
    decide +kernel
  refine ⟨by decide +kernel, (runFrom_order { isoRfairInitial := 500 } halvingKernel (fun _ => 0)
    longPacket (fun r c skb hmem => ?_) hfresh).1 () () ()⟩
  exact absurd (hgso _ hmem) Bool.false_ne_true

end EyeQ.Rl
