import EyeQ.Rl.Limiter
import Mathlib.Algebra.BigOperators.Group.List.Basic

/-!
# What `iso_rl_clock` and `iso_rl_enqueue` do

`isoRlClock` touches the pool of its limiter and the clock, nothing else.  `isoRlEnqueue` has four
outcomes, the constructors of `Outcome`: the packet is refused for lack of room, segmentation
fails, the packet is appended whole, or its segments are appended as far as there is room
(`isoRlEnqueue_spec`).  `Appended r c s s' added evs` says that `s'` is `s` with the packets
`added` behind the queue of limiter `r` on CPU `c` and the events `evs` in the history, and that
nothing else has changed.

The branch of the source that trims a packet is dead.  It is entered with `diff ≤ len` and
`diff - len ≥ 600` (`not_trim`), as long as the sum of the bytes queued and the length does not wrap
an `s32`; and since no queue ever holds more than `maxBytes`, it never does (`add_size_lt`).
-/

namespace EyeQ.Rl

variable {K D C : Type} [DecidableEq K] [DecidableEq D] [DecidableEq C]

/-! ### The clock -/

section Clock

variable (p : Params) (k : Kernel) (r r' : RlId K D) (c : C) (s : TxState K D C)

section

omit [DecidableEq C]

@[simp] theorem q_isoRlClock : (isoRlClock p k r s).q r' c = s.q r' c := by
  unfold isoRlClock
  split_ifs
  · by_cases hr : r' = r
    · subst hr
      simp [refill, TxState.q, TxState.read]
    · simp [TxState.q_modifyRl_of_ne _ _ _ hr]
  · rfl

@[simp] theorem cb_isoRlClock : (isoRlClock p k r s).cb = s.cb := by
  unfold isoRlClock
  split_ifs <;> rfl

@[simp] theorem trace_isoRlClock : (isoRlClock p k r s).trace = s.trace := by
  unfold isoRlClock
  split_ifs <;> rfl

theorem reads_le_isoRlClock : s.reads ≤ (isoRlClock p k r s).reads := by
  unfold isoRlClock
  split_ifs
  · show s.reads ≤ s.reads + 1 + 1
    omega
  · show s.reads ≤ s.reads + 1
    omega

theorem pool_isoRlClock_of_ne {r r' : RlId K D} (hr : r' ≠ r) :
    (isoRlClock p k r s).pool r' = s.pool r' := by
  unfold isoRlClock
  split_ifs
  · simp [TxState.pool_modifyRl_of_ne _ _ hr]
  · rfl

end

end Clock

/-! ### Appending to a queue -/

/-- `s'` is `s` with `added` behind the queue of `r` on `c`, and `evs` in the history. -/
structure Appended (r : RlId K D) (c : C) (s s' : TxState K D C) (added : List Skb)
    (evs : List (Event K D C)) : Prop where
  self : s'.q r c = { s.q r c with
    list := (s.q r c).list ++ added
    bytesEnqueued := (s.q r c).bytesEnqueued + (added.map Skb.size).sum }
  other : ∀ r' c', (r', c') ≠ (r, c) → s'.q r' c' = s.q r' c'
  pool : ∀ r', s'.pool r' = s.pool r'
  cb : s'.cb = s.cb
  reads : s'.reads = s.reads
  tries : s'.tries = s.tries
  trace : s'.trace = s.trace ++ evs

section

omit [DecidableEq K] [DecidableEq D] [DecidableEq C]

theorem Appended.refl (r : RlId K D) (c : C) (s : TxState K D C) : Appended r c s s [] [] where
  self := by simp
  other _ _ _ := rfl
  pool _ := rfl
  cb := rfl
  reads := rfl
  tries := rfl
  trace := (List.append_nil _).symm

theorem Appended.log (r : RlId K D) (c : C) (s : TxState K D C) (e : Event K D C) :
    Appended r c s (s.log e) [] [e] where
  self := by simp
  other _ _ _ := rfl
  pool _ := rfl
  cb := rfl
  reads := rfl
  tries := rfl
  trace := rfl

theorem Appended.trans {r : RlId K D} {c : C} {s₁ s₂ s₃ : TxState K D C} {l l' : List Skb}
    {evs evs' : List (Event K D C)} (h₁ : Appended r c s₁ s₂ l evs)
    (h₂ : Appended r c s₂ s₃ l' evs') : Appended r c s₁ s₃ (l ++ l') (evs ++ evs') where
  self := by
    rw [h₂.self, h₁.self]
    simp [List.append_assoc, Nat.add_assoc]
  other r' c' hne := (h₂.other r' c' hne).trans (h₁.other r' c' hne)
  pool r' := (h₂.pool r').trans (h₁.pool r')
  cb := h₂.cb.trans h₁.cb
  reads := h₂.reads.trans h₁.reads
  tries := h₂.tries.trans h₁.tries
  trace := by rw [h₂.trace, h₁.trace, List.append_assoc]

end

/-- `queueTail` appends one packet, if the byte count of the queue does not wrap. -/
theorem queueTail_appended (r : RlId K D) (c : C) (skb : Skb) (s : TxState K D C)
    (hfits : (s.q r c).bytesEnqueued + skb.size < 2 ^ 64) :
    Appended r c s (queueTail r c skb s) [skb] [] where
  self := by
    rw [queueTail, TxState.q_modifyQ_self, u64_of_lt hfits]
    simp
  other r' c' hne := TxState.q_modifyQ_of_ne _ _ hne
  pool r' := TxState.pool_modifyQ ..
  cb := rfl
  reads := rfl
  tries := rfl
  trace := (List.append_nil _).symm

/-! ### Segments -/

/-- The most bytes a queue can hold: up to the limit, and one more packet. -/
def maxBytes (p : Params) : ℕ := p.isoMaxQueueLenBytes + (maxLen + ethHlen)

theorem maxBytes_lt (p : Params) : maxBytes p + (maxLen + ethHlen) < 2 ^ 32 := by
  have := p.isoMaxQueueLenBytes_lt
  unfold maxBytes maxLen ethHlen
  omega

theorem appendSegment_appended (p : Params) (r : RlId K D) (c : C) (s : TxState K D C)
    (skb : Skb) :
    ((s.q r c).bytesEnqueued < p.isoMaxQueueLenBytes ∧
      Appended r c s (appendSegment p r c s skb) [skb] []) ∨
    Appended r c s (appendSegment p r c s skb) [] [.kfree .noRoom skb] := by
  unfold appendSegment
  split_ifs with hroom
  · have hsize := skb.size_le
    have hmax := maxBytes_lt p
    unfold maxBytes at hmax
    exact Or.inl ⟨hroom, queueTail_appended r c skb s (by omega)⟩
  · exact Or.inr (Appended.log r c s _)

/-- The loop over the segments keeps some of them, in order, and frees the others. -/
theorem foldl_appendSegment_appended (p : Params) (r : RlId K D) (c : C) :
    ∀ (segs : List Skb) (s : TxState K D C), ∃ kept freed : List Skb,
      kept.Sublist segs ∧ (freed = [] → kept = segs) ∧
      (kept ≠ [] → (s.q r c).bytesEnqueued + (kept.map Skb.size).sum ≤ maxBytes p) ∧
      Appended r c s (segs.foldl (appendSegment p r c) s) kept
        (freed.map (Event.kfree .noRoom)) := by
  intro segs
  induction segs with
  | nil =>
    intro s
    exact ⟨[], [], List.Sublist.refl _, fun _ => rfl, fun h => absurd rfl h, .refl r c s⟩
  | cons skb segs ih =>
    intro s
    rw [List.foldl_cons]
    obtain ⟨kept, freed, hsub, hall, hbytes, happ⟩ := ih (appendSegment p r c s skb)
    rcases appendSegment_appended p r c s skb with ⟨hroom, hone⟩ | hone
    · refine ⟨skb :: kept, freed, hsub.cons_cons skb, fun h => by rw [hall h], ?_,
        hone.trans happ⟩
      intro _
      have hsize := skb.size_le
      rw [hone.self] at hbytes
      -- the last segment kept is the one that may exceed the limit
      by_cases hk : kept = []
      · subst hk
        simp only [List.map_cons, List.map_nil, List.sum_cons, List.sum_nil]
        unfold maxBytes
        omega
      · have := hbytes hk
        simp only [List.map_cons, List.sum_cons, List.map_nil, List.sum_nil] at this ⊢
        omega
    · refine ⟨kept, skb :: freed, hsub.cons skb, fun h => absurd h (by simp), ?_, ?_⟩
      · rw [hone.self] at hbytes
        simpa using hbytes
      · exact hone.trans happ

/-! ### The outcomes of `iso_rl_enqueue` -/

/-- The outcomes of enqueueing `pkt` in the queue of `r` on `c`, which holds `bytes`: the verdict,
the packets added and the events. -/
inductive Outcome (p : Params) (k : Kernel) (r : RlId K D) (c : C) (pkt : Skb) (bytes : ℕ) :
    IsoVerdict → List Skb → List (Event K D C) → Prop
  | drop (hfull : p.isoMaxQueueLenBytes < bytes + pkt.size) : Outcome p k r c pkt bytes .drop [] []
  | error (hgso : k.skbGsoSegment pkt = none) :
      Outcome p k r c pkt bytes .error [] [.gsoSegment r c pkt none]
  | whole (pkt' : Skb) (htag : pkt'.tag = pkt.tag)
      (hroom : bytes + pkt.size ≤ p.isoMaxQueueLenBytes) :
      Outcome p k r c pkt bytes .success [pkt'] [.accept r c pkt]
  | split (segs kept freed : List Skb) (hgso : k.skbGsoSegment pkt = some segs)
      (hsub : kept.Sublist segs) (hall : freed = [] → kept = segs)
      (hbytes : kept ≠ [] → bytes + (kept.map Skb.size).sum ≤ maxBytes p) :
      Outcome p k r c pkt bytes .success kept ([.accept r c pkt,
        .gsoSegment r c pkt (some segs), .kfree .segmented pkt] ++ freed.map (.kfree .noRoom))

section

variable {p : Params} {k : Kernel} {r : RlId K D} {c : C} {pkt : Skb} {bytes : ℕ} {v : IsoVerdict}
  {added : List Skb} {evs : List (Event K D C)}

section

omit [DecidableEq K] [DecidableEq D] [DecidableEq C]

theorem Outcome.not_charge (hout : Outcome p k r c pkt bytes v added evs) {r' : RlId K D} {c' : C}
    {n m b : ℕ} : Event.charge r' c' n m b ∉ evs := by
  cases hout <;> simp

theorem Outcome.not_trim (hout : Outcome p k r c pkt bytes v added evs) {r' : RlId K D} {c' : C}
    {skb : Skb} : Event.trim r' c' skb ∉ evs := by
  cases hout <;> simp

theorem Outcome.not_xmit (hout : Outcome p k r c pkt bytes v added evs) {c' : C} {skb : Skb} :
    Event.xmit c' skb ∉ evs := by
  cases hout <;> simp

end

end

/-- The guard of `skb_trim` cannot be met: what the packet exceeds the limit by is either more than
its length, or at most its length and then not 600 more. -/
theorem not_trim {bytes len limit : ℕ} (hlimit : limit < 2 ^ 31)
    (hfits : bytes + len < limit + 2 ^ 31) (hover : limit < bytes + len) :
    s32 (s32 (s32 bytes + len) - limit) > len ∨
      s32 (s32 (s32 (s32 bytes + len) - limit) - len) < minPktSize := by
  -- the casts to `s32` on the way cancel, since the result fits
  have hs : s32 (s32 (s32 bytes + len) - limit) = (bytes : ℤ) + len - limit := by
    unfold s32
    rw [Int.bmod_sub_bmod, add_sub_assoc, Int.bmod_add_bmod, ← add_sub_assoc]
    exact s32_of_fits (by omega) (by omega)
  rw [hs, s32_of_fits (by omega) (by omega)]
  unfold minPktSize
  omega

theorem appendWhole_appended (p : Params) (r : RlId K D) (c : C) (pkt : Skb) (s : TxState K D C)
    (hfits : (s.q r c).bytesEnqueued + pkt.size < 2 ^ 64) :
    ∃ pkt' : Skb, pkt'.tag = pkt.tag ∧ Appended r c s (appendWhole p r c pkt s) [pkt'] [] := by
  unfold appendWhole
  cases r with
  | txc t =>
    dsimp only
    split_ifs
    · exact ⟨pkt.changeDsfield 0 0x3, rfl, queueTail_appended _ _ _ _ hfits⟩
    · exact ⟨pkt, rfl, queueTail_appended _ _ _ _ hfits⟩
  | dest t d => exact ⟨pkt, rfl, queueTail_appended _ _ _ _ hfits⟩

/-- A queue that is not over `maxBytes` is far from wrapping. -/
theorem add_size_lt {p : Params} {bytes : ℕ} (hbytes : bytes ≤ maxBytes p) (pkt : Skb) :
    bytes + pkt.size < p.isoMaxQueueLenBytes + 2 ^ 31 := by
  have hsize := pkt.size_le
  unfold maxBytes maxLen ethHlen at *
  omega

/-- What `iso_rl_enqueue` does, if the bytes queued and the length of the packet do not exceed the
limit by `2 ^ 31`. -/
theorem isoRlEnqueue_spec (p : Params) (k : Kernel) (r : RlId K D) (pkt : Skb) (c : C)
    (s : TxState K D C)
    (hbytes : (s.q r c).bytesEnqueued + pkt.size < p.isoMaxQueueLenBytes + 2 ^ 31) :
    ∃ added evs,
      Outcome p k r c pkt (s.q r c).bytesEnqueued (isoRlEnqueue p k r pkt c s).1 added evs ∧
      Appended r c (isoRlClock p k r s) (isoRlEnqueue p k r pkt c s).2 added evs := by
  have hlimit := p.isoMaxQueueLenBytes_lt
  have hq : (isoRlClock p k r s).q r c = s.q r c := q_isoRlClock ..
  have hfits : (s.q r c).bytesEnqueued + pkt.size < 2 ^ 64 := by omega
  unfold isoRlEnqueue
  simp only [hq, u64_of_lt hfits]
  split_ifs with hwhole hover hdrop
  · exact ⟨[], [], .drop hover, .refl r c _⟩
  · -- the branch of `skb_trim`
    exact absurd (not_trim hlimit hbytes hover) hdrop
  · obtain ⟨pkt', htag, happ⟩ := appendWhole_appended p r c pkt
      ((isoRlClock p k r s).log (.accept r c pkt)) (by rw [TxState.q_log, hq]; exact hfits)
    exact ⟨[pkt'], [.accept r c pkt], .whole pkt' htag (by omega),
      (Appended.log r c _ (.accept r c pkt)).trans happ⟩
  · cases hgso : k.skbGsoSegment pkt with
    | none => exact ⟨[], _, .error hgso, .log r c _ _⟩
    | some segs =>
      -- the three events, then the loop
      have hlog := ((Appended.log r c (isoRlClock p k r s) (.accept r c pkt)).trans
        (Appended.log r c _ (.gsoSegment r c pkt (some segs)))).trans
        (Appended.log r c _ (.kfree .segmented pkt))
      obtain ⟨kept, freed, hsub, hall, hkept, happ⟩ := foldl_appendSegment_appended p r c segs
        ((((isoRlClock p k r s).log (.accept r c pkt)).log
          (.gsoSegment r c pkt (some segs))).log (.kfree .segmented pkt))
      refine ⟨kept, _, .split segs kept freed hgso hsub hall ?_, hlog.trans happ⟩
      simpa [hq] using hkept

end EyeQ.Rl
