import EyeQ.Rl.Equiv.Move

/-!
# Is the verdict of `iso_rl_enqueue` true?

`iso_rl_enqueue` has two paths.  A packet at a high rate, or a short one, is appended whole if there
is room for it.  A long packet at a low rate is freed first and then split, and each segment looks
for room by itself; whatever becomes of them, the verdict is "success".

* `isoRlEnqueue_truthful_iff`: when the verdict says what has happened.  On the path that splits,
  all segments but the last must leave the queue below its limit (`RoomFor`).
* `isoRlEnqueue_lossless_iff`: when a packet for which `iso_rl_has_space_for` has found room is
  taken as a whole.  The room was for the packet, and its segments are longer by a header each.
* `runFrom_not_wraps`: the arithmetic of the other path wraps in no run.
-/

namespace EyeQ.Rl

variable {K D C : Type} [DecidableEq K] [DecidableEq D] [DecidableEq C]

/-- `iso_rl_enqueue` takes the path that splits the packet.  The rate is the one after the
refill. -/
def Splits (p : Params) (k : Kernel) (r : RlId K D) (pkt : Skb) (s : TxState K D C) : Prop :=
  ((isoRlClock p k r s).rl r).rate ≤ p.isoGsoThreshRate ∧ p.isoGsoMinSplitBytes < pkt.size

/-- Each of the segments finds room in a queue of `bytes`: all but the last leave it below the
limit. -/
def RoomFor (p : Params) (bytes : ℕ) (segs : List Skb) : Prop :=
  bytes + (segs.dropLast.map Skb.size).sum < p.isoMaxQueueLenBytes

/-- The queue is full and the test for room on the other path does not see it, because `bytes + len`
wraps a `u64` or because it exceeds the limit by so much that the subtraction of `len` wraps an
`s32`. -/
def Wraps (p : Params) (bytes len : ℕ) : Prop :=
  p.isoMaxQueueLenBytes ≤ bytes ∧
    (u64 (bytes + len) ≤ p.isoMaxQueueLenBytes ∨
      2 ^ 31 ≤ ((bytes : ℤ) + len - p.isoMaxQueueLenBytes) % 2 ^ 32 ∧
        ((bytes : ℤ) + len - p.isoMaxQueueLenBytes) % 2 ^ 32 < 2 ^ 31 + len)

/-- The packet, but for a mark in its `tos`, or each of its segments in order, has been appended to
the queue. -/
def Taken (p : Params) (k : Kernel) (r : RlId K D) (pkt : Skb) (c : C) (s : TxState K D C) : Prop :=
  (Splits p k r pkt s → ∃ segs, k.skbGsoSegment pkt = some segs ∧
    ((isoRlEnqueue p k r pkt c s).2.q r c).list = (s.q r c).list ++ segs) ∧
  (¬ Splits p k r pkt s → ∃ tos : UInt8,
    ((isoRlEnqueue p k r pkt c s).2.q r c).list = (s.q r c).list ++ [{ pkt with tos := tos }])

/-- The verdict is true: "success" if all of the packet is in the queue, and otherwise the queue is
as it was and the packet has not been freed.  A full queue refuses every packet. -/
structure Truthful (p : Params) (k : Kernel) (r : RlId K D) (pkt : Skb) (c : C)
    (s : TxState K D C) : Prop where
  success : (isoRlEnqueue p k r pkt c s).1 = .success → Taken p k r pkt c s
  refused : (isoRlEnqueue p k r pkt c s).1 = .drop ∨ (isoRlEnqueue p k r pkt c s).1 = .error →
    ((isoRlEnqueue p k r pkt c s).2.q r c).list = (s.q r c).list ∧
    ((isoRlEnqueue p k r pkt c s).2.q r c).bytesEnqueued = (s.q r c).bytesEnqueued ∧
    ∀ why, Event.kfree why pkt ∈ (isoRlEnqueue p k r pkt c s).2.trace →
    Event.kfree why pkt ∈ s.trace
  full : p.isoMaxQueueLenBytes ≤ (s.q r c).bytesEnqueued → (isoRlEnqueue p k r pkt c s).1 = .drop

/-! ### The loop over the segments -/

section Segments

variable (p : Params) (r : RlId K D) (c : C)

/-- All segments are in the queue after the loop exactly if each has found room. -/
theorem list_foldl_appendSegment_iff : ∀ (segs : List Skb) (s : TxState K D C),
    ((segs.foldl (appendSegment p r c) s).q r c).list = (s.q r c).list ++ segs ↔
      segs = [] ∨ RoomFor p (s.q r c).bytesEnqueued segs := by
  intro segs
  induction segs with
  | nil => intro s; simp
  | cons skb segs ih =>
    intro s
    rw [List.foldl_cons]
    by_cases hroom : (s.q r c).bytesEnqueued < p.isoMaxQueueLenBytes
    · -- the first is appended, and the others are left to the induction hypothesis
      have hsize := skb.size_le
      have hmax := maxBytes_lt p
      have happ : Appended r c s (appendSegment p r c s skb) [skb] [] := by
        rw [appendSegment, if_pos hroom]
        unfold maxBytes at hmax
        exact queueTail_appended r c skb s (by omega)
      have hlist : ((appendSegment p r c s skb).q r c).list = (s.q r c).list ++ [skb] := by
        rw [happ.self]
      have hbytes : ((appendSegment p r c s skb).q r c).bytesEnqueued
          = (s.q r c).bytesEnqueued + skb.size := by
        rw [happ.self]
        simp
      have hih := ih (appendSegment p r c s skb)
      rw [hlist, hbytes, List.append_assoc, List.singleton_append] at hih
      rw [hih]
      cases segs with
      | nil => simpa [RoomFor] using hroom
      | cons skb' segs => simp [RoomFor, Nat.add_assoc]
    · -- the first is freed, so at most the others are appended
      have hlist : (appendSegment p r c s skb).q r c = s.q r c := by
        rw [appendSegment, if_neg hroom, TxState.q_log]
      obtain ⟨kept, freed, hsub, -, -, happ⟩ :=
        foldl_appendSegment_appended p r c segs (appendSegment p r c s skb)
      constructor
      · intro heq
        rw [happ.self, hlist] at heq
        have hlen := congrArg List.length (List.append_cancel_left heq)
        have hle := hsub.length_le
        rw [List.length_cons] at hlen
        omega
      · rintro (hnil | hfits)
        · exact absurd hnil (List.cons_ne_nil _ _)
        · unfold RoomFor at hfits
          omega

end Segments

/-! ### The path that appends a packet whole -/

/-- The test for room on this path, for a queue of `bytes`. -/
def Refuses (p : Params) (bytes len : ℕ) : Prop :=
  p.isoMaxQueueLenBytes < u64 (bytes + len) ∧
    (s32 (s32 (s32 bytes + len) - p.isoMaxQueueLenBytes) > len ∨
      s32 (s32 (s32 (s32 bytes + len) - p.isoMaxQueueLenBytes) - len) < minPktSize)

/-- The casts on the way cancel. -/
theorem s32_overshoot (bytes len limit : ℕ) :
    s32 (s32 (s32 bytes + len) - limit) = s32 ((bytes : ℤ) + len - limit) := by
  unfold s32
  rw [Int.bmod_sub_bmod, add_sub_assoc, Int.bmod_add_bmod, ← add_sub_assoc]

/-- A full queue refuses a packet, unless the arithmetic wraps. -/
theorem refuses_iff_not_wraps {p : Params} {bytes : ℕ} (hfull : p.isoMaxQueueLenBytes ≤ bytes)
    (pkt : Skb) : Refuses p bytes pkt.size ↔ ¬ Wraps p bytes pkt.size := by
  have hsize : pkt.size ≤ 65563 := pkt.size_le
  generalize pkt.size = len at hsize
  unfold Refuses Wraps minPktSize
  rw [s32_overshoot]
  generalize (bytes : ℤ) + len - p.isoMaxQueueLenBytes = z
  -- the two bounds on the remainder are where `z` as an `s32` is in reach of the other end
  have htest : (s32 z > len ∨ s32 (s32 z - len) < 600) ↔
      ¬ (2 ^ 31 ≤ z % 2 ^ 32 ∧ z % 2 ^ 32 < 2 ^ 31 + len) := by
    rw [s32_eq_ite (s32 z - len), s32_eq_ite z]
    omega
  rw [htest]
  constructor
  · rintro ⟨hover, hnot⟩ ⟨-, hle | hnear⟩
    · omega
    · exact hnot hnear
  · intro hwraps
    refine ⟨?_, fun hnear => hwraps ⟨hfull, Or.inr hnear⟩⟩
    by_contra hle
    exact hwraps ⟨hfull, Or.inl (Nat.le_of_not_lt hle)⟩

/-- What passes the test although it overshoots the limit is not cut: the length that is passed to
`skb_trim` is a negative number taken for an `unsigned int`. -/
theorem trim_overshoot {p : Params} {bytes : ℕ} {pkt : Skb}
    (hpass : ¬ (s32 (s32 (s32 bytes + pkt.size) - p.isoMaxQueueLenBytes) > pkt.size ∨
      s32 (s32 (s32 (s32 bytes + pkt.size) - p.isoMaxQueueLenBytes) - pkt.size) < minPktSize)) :
    pkt.trim (u32OfInt (s32 (s32 (s32 bytes + pkt.size) - p.isoMaxQueueLenBytes))) = pkt := by
  have hlo := s32_ge (s32 (s32 bytes + pkt.size) - p.isoMaxQueueLenBytes)
  have hhi := s32_lt (s32 (s32 bytes + pkt.size) - p.isoMaxQueueLenBytes)
  generalize s32 (s32 (s32 bytes + pkt.size) - p.isoMaxQueueLenBytes) = diff at hpass hlo hhi ⊢
  have hneg : diff < 0 := by
    by_contra hge
    have hfits : s32 (diff - pkt.size) = diff - pkt.size := by
      have hsize : pkt.size ≤ 65563 := pkt.size_le
      exact s32_of_fits (by omega) (by omega)
    rw [hfits] at hpass
    unfold minPktSize at hpass
    omega
  have hlen : pkt.len ≤ u32OfInt diff := by
    have hmax : pkt.len ≤ 65549 := pkt.len_le
    unfold u32OfInt
    omega
  rw [Skb.trim]
  simp only [min_eq_left hlen]

theorem list_appendWhole (p : Params) (r : RlId K D) (c : C) (pkt : Skb) (s : TxState K D C) :
    ∃ tos : UInt8,
      ((appendWhole p r c pkt s).q r c).list = (s.q r c).list ++ [{ pkt with tos := tos }] := by
  have htail : ∀ (r : RlId K D) (skb : Skb),
      ((queueTail r c skb s).q r c).list = (s.q r c).list ++ [skb] := by
    intro r skb
    rw [queueTail, TxState.q_modifyQ_self]
  unfold appendWhole
  cases r with
  | txc t =>
    dsimp only
    split_ifs
    · exact ⟨_, htail _ (pkt.changeDsfield 0 0x3)⟩
    · exact ⟨pkt.tos, htail _ pkt⟩
  | dest t d => exact ⟨pkt.tos, htail _ pkt⟩

/-! ### The two paths -/

section Paths

variable {p : Params} {k : Kernel} {r : RlId K D} {pkt : Skb} {c : C} {s : TxState K D C}

omit [DecidableEq C] in
theorem not_splits_iff : ¬ Splits p k r pkt s ↔
    ((isoRlClock p k r s).rl r).rate > p.isoGsoThreshRate ∨ pkt.size ≤ p.isoGsoMinSplitBytes := by
  unfold Splits
  omega

/-- A packet that is not split is refused, or appended as it is. -/
theorem isoRlEnqueue_of_not_splits (h : ¬ Splits p k r pkt s) :
    Refuses p (s.q r c).bytesEnqueued pkt.size ∧
      isoRlEnqueue p k r pkt c s = (.drop, isoRlClock p k r s) ∨
    ¬ Refuses p (s.q r c).bytesEnqueued pkt.size ∧
      (isoRlEnqueue p k r pkt c s).1 = .success ∧
      ∃ tos : UInt8,
        ((isoRlEnqueue p k r pkt c s).2.q r c).list =
        (s.q r c).list ++ [{ pkt with tos := tos }] := by
  rw [not_splits_iff] at h
  unfold isoRlEnqueue Refuses
  simp only [h, ↓reduceIte, q_isoRlClock]
  split_ifs with hover hdrop
  · exact Or.inl ⟨⟨hover, hdrop⟩, rfl⟩
  · refine Or.inr ⟨fun hrefuse => hdrop hrefuse.2, rfl, ?_⟩
    rw [trim_overshoot hdrop]
    simpa using list_appendWhole p r c pkt
      (((isoRlClock p k r s).log (.accept r c pkt)).log (.trim r c pkt))
  · refine Or.inr ⟨fun hrefuse => hover hrefuse.1, rfl, ?_⟩
    simpa using list_appendWhole p r c pkt ((isoRlClock p k r s).log (.accept r c pkt))

/-- A packet that is split, if segmentation fails. -/
theorem isoRlEnqueue_of_splits_none (h : Splits p k r pkt s) (hgso : k.skbGsoSegment pkt = none) :
    isoRlEnqueue p k r pkt c s
      = (.error, (isoRlClock p k r s).log (.gsoSegment r c pkt none)) := by
  have hpath := not_splits_iff.not.mp (not_not_intro h)
  rw [isoRlEnqueue]
  simp only [hpath, ↓reduceIte, hgso]

/-- A packet that is split, once it has been replaced by its segments. -/
theorem isoRlEnqueue_of_splits_some {segs : List Skb} (h : Splits p k r pkt s)
    (hgso : k.skbGsoSegment pkt = some segs) :
    (isoRlEnqueue p k r pkt c s).1 = .success ∧
      (((isoRlEnqueue p k r pkt c s).2.q r c).list = (s.q r c).list ++ segs ↔
        segs = [] ∨ RoomFor p (s.q r c).bytesEnqueued segs) := by
  have hpath := not_splits_iff.not.mp (not_not_intro h)
  rw [isoRlEnqueue]
  simp only [hpath, ↓reduceIte, hgso]
  have hloop := list_foldl_appendSegment_iff p r c segs ((((isoRlClock p k r s).log
    (.accept r c pkt)).log (.gsoSegment r c pkt (some segs))).log (.kfree .segmented pkt))
  simp only [TxState.q_log, q_isoRlClock] at hloop
  exact ⟨trivial, hloop⟩

/-- All of a packet that is split is in the queue exactly if each segment has found room. -/
theorem taken_iff_of_splits {segs : List Skb} (h : Splits p k r pkt s)
    (hgso : k.skbGsoSegment pkt = some segs) :
    Taken p k r pkt c s ↔ segs = [] ∨ RoomFor p (s.q r c).bytesEnqueued segs := by
  rw [← (isoRlEnqueue_of_splits_some h hgso).2]
  constructor
  · rintro ⟨hsplit, -⟩
    obtain ⟨segs', hgso', hlist⟩ := hsplit h
    obtain rfl : segs = segs' := Option.some.inj (hgso.symm.trans hgso')
    exact hlist
  · intro hlist
    exact ⟨fun _ => ⟨segs, hgso, hlist⟩, fun hnot => absurd h hnot⟩

end Paths

/-! ### The verdict -/

section Verdict

variable (p : Params) (k : Kernel) (r : RlId K D) (pkt : Skb) (c : C) (s : TxState K D C)

/-- The verdict is true exactly if a packet that is split meets a queue that is not full and is
replaced by segments that all find room (or by none, segmentation having failed), and the test on
the other path does not wrap. -/
theorem isoRlEnqueue_truthful_iff :
    Truthful p k r pkt c s ↔
      (Splits p k r pkt s → (s.q r c).bytesEnqueued < p.isoMaxQueueLenBytes ∧
        ∀ segs, k.skbGsoSegment pkt = some segs → RoomFor p (s.q r c).bytesEnqueued segs) ∧
      (¬ Splits p k r pkt s → ¬ Wraps p (s.q r c).bytesEnqueued pkt.size) := by
  by_cases hsplits : Splits p k r pkt s
  · simp only [hsplits, true_imp_iff, not_true_eq_false, false_imp_iff, and_true]
    cases hgso : k.skbGsoSegment pkt with
    | none =>
      have henq := isoRlEnqueue_of_splits_none (c := c) hsplits hgso
      constructor
      · intro h
        refine ⟨?_, fun segs hsegs => nomatch hsegs⟩
        by_contra hfull
        have hdrop := h.full (Nat.le_of_not_lt hfull)
        rw [henq] at hdrop
        exact nomatch hdrop
      · rintro ⟨hroom, -⟩
        refine ⟨?_, ?_, fun hfull => absurd hroom (Nat.not_lt.mpr hfull)⟩
        · rw [henq]
          exact fun h => nomatch h
        · rw [henq]
          intro _
          refine ⟨by simp, by simp, fun why hmem => ?_⟩
          simpa [TxState.log] using hmem
    | some segs =>
      obtain ⟨hverdict, -⟩ := isoRlEnqueue_of_splits_some (c := c) hsplits hgso
      have htaken := taken_iff_of_splits (c := c) hsplits hgso
      constructor
      · intro h
        have hroom : (s.q r c).bytesEnqueued < p.isoMaxQueueLenBytes := by
          by_contra hfull
          have hdrop := h.full (Nat.le_of_not_lt hfull)
          exact nomatch hverdict.symm.trans hdrop
        refine ⟨hroom, fun segs' hsegs' => ?_⟩
        obtain rfl := Option.some.inj hsegs'
        rcases htaken.mp (h.success hverdict) with hnil | hall
        · subst hnil
          exact hroom
        · exact hall
      · rintro ⟨hroom, hall⟩
        refine ⟨fun _ => htaken.mpr (Or.inr (hall segs rfl)), ?_,
          fun hfull => absurd hroom (Nat.not_lt.mpr hfull)⟩
        rw [hverdict]
        rintro (h | h)
        · exact nomatch h
        · exact nomatch h
  · simp only [hsplits, false_imp_iff, not_false_eq_true, true_imp_iff, true_and]
    rcases isoRlEnqueue_of_not_splits (c := c) hsplits with
      ⟨hrefuse, henq⟩ | ⟨hrefuse, hverdict, hlist⟩
    · constructor
      · intro _ hwraps
        exact (refuses_iff_not_wraps hwraps.1 pkt).mp hrefuse hwraps
      · intro _
        refine ⟨?_, ?_, fun _ => by rw [henq]⟩
        · rw [henq]
          exact fun h => nomatch h
        · rw [henq]
          intro _
          simp
    · constructor
      · intro h hwraps
        exact nomatch hverdict.symm.trans (h.full hwraps.1)
      · intro hwraps
        refine ⟨fun _ => ⟨fun h => absurd h hsplits, fun _ => hlist⟩, ?_, fun hfull => ?_⟩
        · rw [hverdict]
          rintro (h | h)
          · exact nomatch h
          · exact nomatch h
        · exact absurd ((refuses_iff_not_wraps hfull pkt).mpr hwraps) hrefuse

end Verdict

/-- In no run does the test for room wrap: the bytes queued are bounded by `maxBytes`. -/
theorem runFrom_not_wraps [Fintype C] (p : Params) (k : Kernel) (t : RlId K D → ℕ)
    (ops : List (Op K D C)) (r : RlId K D) (c : C) (pkt : Skb) :
    ¬ Wraps p ((runFrom p k t ops).q r c).bytesEnqueued pkt.size := by
  have hocc : ((runFrom p k t ops).q r c).bytesEnqueued ≤ maxBytes p :=
    (runFrom_occupied p k t ops r c).2
  have hlimit := p.isoMaxQueueLenBytes_lt
  have hlt := add_size_lt hocc pkt
  have hpos : 0 < pkt.size := by
    unfold Skb.size ethHlen
    omega
  rintro ⟨hfull, hwrap | ⟨hnear, -⟩⟩
  · rw [u64_of_lt (by omega)] at hwrap
    omega
  · omega

/-! ### Up the hierarchy -/

/-- `iso_rl_enqueue` takes all of the packet and says so. -/
def TakesWhole (p : Params) (k : Kernel) (r : RlId K D) (pkt : Skb) (c : C) (s : TxState K D C) :
    Prop :=
  (isoRlEnqueue p k r pkt c s).1 = .success ∧ Taken p k r pkt c s

/-- A packet for which the class-level queue has space is taken as a whole, unless it is split into
segments that do not all find room. -/
theorem isoRlEnqueue_lossless_iff {p : Params} {k : Kernel} {t : K} {pkt : Skb} {c : C}
    {s : TxState K D C} {segs : List Skb} (hspace : isoRlHasSpaceFor p (.txc t) pkt c s = true)
    (hgso : k.skbGsoSegment pkt = some segs) (hne : segs ≠ []) :
    TakesWhole p k (.txc t) pkt c s ↔
      (Splits p k (.txc t) pkt s → RoomFor p (s.q (.txc t) c).bytesEnqueued segs) := by
  by_cases hsplits : Splits p k (.txc t) pkt s
  · have hverdict := (isoRlEnqueue_of_splits_some (c := c) hsplits hgso).1
    rw [TakesWhole, taken_iff_of_splits hsplits hgso]
    simp [hverdict, hne, hsplits]
  · have hroom : u64 ((s.q (.txc t) c).bytesEnqueued + pkt.size) < p.isoMaxQueueLenBytes :=
      of_decide_eq_true hspace
    refine iff_of_true ?_ fun h => absurd h hsplits
    rcases isoRlEnqueue_of_not_splits (c := c) hsplits with ⟨hrefuse, -⟩ | ⟨-, hverdict, hlist⟩
    · exact absurd hrefuse.1 (Nat.not_lt.mpr hroom.le)
    · exact ⟨hverdict, fun h => absurd h hsplits, fun _ => hlist⟩

/-- A kernel that splits a packet with 66 bytes of headers into segments with 1448 bytes of
payload. -/
def mtuKernel : Kernel where
  ktime _ := 0
  ktime_mono := Kernel.monotone_stopped
  trylock _ := true
  skbGsoSegment skb :=
    let payload := skb.size - 66
    some <| (List.range ((payload + 1447) / 1448)).map fun i =>
      { skb with
        ptr := skb.ptr + 1 + i
        len := 52 + min 1448 (payload - 1448 * i)
        len_le := (Nat.add_le_add_left (min_le_left ..) 52).trans (by decide) }

/-- A packet of `n` bytes. -/
def packet (ptr n : ℕ) (h : n - 14 ≤ maxLen := by decide) : Skb :=
  ⟨ptr, n - 14, true, 1, 2, 6, 0, 0, h⟩

/-- A class at 500 Mbit/s, whose queue holds the packets `list`. -/
def slowClass (list : List Skb) : TxState Unit Unit Unit :=
  (TxState.init { isoRfairInitial := 500 } fun _ => 0).modifyQ (.txc ()) () fun q =>
    { q with list := list, bytesEnqueued := (list.map Skb.size).sum }

/-- There is space for 12001 bytes more. -/
def nearlyFull : TxState Unit Unit Unit := slowClass [packet 1 59536, packet 2 59535]

/-- A packet that is split into nine segments finds room in an empty queue. -/
theorem isoRlEnqueue_lossless_empty :
    isoRlHasSpaceFor {} (.txc ()) (packet 3 12000) () (slowClass []) = true ∧
      TakesWhole {} mtuKernel (.txc ()) (packet 3 12000) () (slowClass []) := by
  refine ⟨by decide +kernel, (isoRlEnqueue_lossless_iff (by decide +kernel) rfl ?_).mpr fun _ => ?_⟩
  · decide +kernel
  · unfold RoomFor
    decide +kernel

/-- There is space for a packet of 12000 bytes, and it is replaced by nine segments with 12528
bytes.  The first eight fill the queue, and the last is freed. -/
theorem isoRlEnqueue_not_lossless :
    isoRlHasSpaceFor {} (.txc ()) (packet 3 12000) () nearlyFull = true ∧
    (∃ segs, mtuKernel.skbGsoSegment (packet 3 12000) = some segs ∧ segs ≠ [] ∧
      (packet 3 12000).size ≤ (segs.map Skb.size).sum) ∧
    ¬ TakesWhole {} mtuKernel (.txc ()) (packet 3 12000) () nearlyFull := by
  refine ⟨by decide +kernel, ⟨_, rfl, by decide +kernel, by decide +kernel⟩, ?_⟩
  rintro ⟨-, hsplit, -⟩
  obtain ⟨segs, hgso, hlist⟩ := hsplit ⟨by decide +kernel, by decide +kernel⟩
  obtain rfl := Option.some.inj hgso
  exact absurd (congrArg List.length hlist) (by decide +kernel)

/-- A full queue frees all segments of a packet and reports success. -/
theorem isoRlEnqueue_not_truthful :
    ¬ Truthful {} mtuKernel (.txc ()) (packet 3 12000) ()
      (slowClass [packet 1 65536, packet 2 65536]) := by
  intro h
  exact absurd (h.full (by decide +kernel)) (by decide +kernel)

end EyeQ.Rl
