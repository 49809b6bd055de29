import EyeQ.Rl.Equiv.Verdict

/-!
# What is appended

`added p k r pkt c s` are the packets that `iso_rl_enqueue` puts behind its queue.  On the path that
splits these are the first segments, up to the one that fills the queue (`fitting`); on the other
path the packet itself, which a class-level queue above `ISO_TX_MARK_THRESH` marks (`marked`), or
nothing.  Only the second path marks.
-/

namespace EyeQ.Rl

variable {K D C : Type} [DecidableEq K] [DecidableEq D] [DecidableEq C]

/-! ### The segments that find room -/

/-- The segments that find room in a queue of `bytes`.  A queue that is full stays full, so the
others are those at the end. -/
def fitting (p : Params) : ℕ → List Skb → List Skb
  | _, [] => []
  | bytes, skb :: segs =>
    if bytes < p.isoMaxQueueLenBytes then skb :: fitting p (bytes + skb.size) segs else []

theorem fitting_of_full {p : Params} {bytes : ℕ} (hfull : p.isoMaxQueueLenBytes ≤ bytes)
    (segs : List Skb) : fitting p bytes segs = [] := by
  cases segs with
  | nil => rfl
  | cons skb segs => rw [fitting, if_neg (Nat.not_lt.mpr hfull)]

theorem fitting_isPrefix (p : Params) (bytes : ℕ) (segs : List Skb) :
    fitting p bytes segs <+: segs := by
  induction segs generalizing bytes with
  | nil => exact List.prefix_refl _
  | cons skb segs ih =>
    rw [fitting]
    split_ifs
    · exact List.cons_prefix_cons.mpr ⟨rfl, ih _⟩
    · exact List.nil_prefix

/-- Whether a segment finds room is decided before the segments behind it come. -/
theorem fitting_take (p : Params) (bytes : ℕ) (segs : List Skb) (n : ℕ) :
    fitting p bytes (segs.take n) = (fitting p bytes segs).take n := by
  induction segs generalizing bytes n with
  | nil => simp [fitting]
  | cons skb segs ih =>
    cases n with
    | zero => simp [fitting]
    | succ n =>
      rw [List.take_succ_cons, fitting, fitting]
      split_ifs
      · rw [ih, List.take_succ_cons]
      · rfl

/-- The last segment that finds room is the only one that reaches beyond the limit. -/
theorem fitting_bytes_lt {p : Params} {segs : List Skb} {bytes : ℕ}
    (hne : fitting p bytes segs ≠ []) :
    ∃ skb ∈ segs, bytes + ((fitting p bytes segs).map Skb.size).sum <
    p.isoMaxQueueLenBytes + skb.size := by
  induction segs generalizing bytes with
  | nil => exact absurd rfl hne
  | cons skb segs ih =>
    rw [fitting] at hne ⊢
    split_ifs at hne ⊢ with hroom
    · rw [List.map_cons, List.sum_cons]
      by_cases hnil : fitting p (bytes + skb.size) segs = []
      · refine ⟨skb, List.mem_cons_self .., ?_⟩
        rw [hnil, List.map_nil, List.sum_nil]
        omega
      · obtain ⟨last, hmem, hlt⟩ := ih hnil
        exact ⟨last, List.mem_cons_of_mem _ hmem, by omega⟩
    · exact absurd rfl hne

/-- The loop over the segments. -/
theorem q_foldl_appendSegment (p : Params) (r : RlId K D) (c : C) (segs : List Skb)
    (s : TxState K D C) :
    (segs.foldl (appendSegment p r c) s).q r c = { s.q r c with
      list := (s.q r c).list ++ fitting p (s.q r c).bytesEnqueued segs
      bytesEnqueued := (s.q r c).bytesEnqueued
        + ((fitting p (s.q r c).bytesEnqueued segs).map Skb.size).sum } := by
  induction segs generalizing s with
  | nil => simp [fitting]
  | cons skb segs ih =>
    rw [List.foldl_cons, ih]
    by_cases hroom : (s.q r c).bytesEnqueued < p.isoMaxQueueLenBytes
    · -- the first is appended, and the others find the bytes it has added
      have hq : (appendSegment p r c s skb).q r c = { s.q r c with
          list := (s.q r c).list ++ [skb]
          bytesEnqueued := (s.q r c).bytesEnqueued + skb.size } := by
        have hsize := skb.size_le
        have hmax := maxBytes_lt p
        unfold maxBytes at hmax
        rw [appendSegment, if_pos hroom, queueTail, TxState.q_modifyQ_self, u64_of_lt (by omega)]
      rw [hq, fitting, if_pos hroom]
      simp [Nat.add_assoc]
    · -- the first is freed, and so are the others
      have hq : (appendSegment p r c s skb).q r c = s.q r c := by
        rw [appendSegment, if_neg hroom, TxState.q_log]
      rw [hq, fitting_of_full (Nat.le_of_not_lt hroom), fitting_of_full (Nat.le_of_not_lt hroom)]

/-! ### The packet itself -/

/-- What is appended of a packet that is not split: a class-level queue that is above the threshold
with the packet in it overwrites its `tos`. -/
def marked (p : Params) (r : RlId K D) (bytes : ℕ) (pkt : Skb) : Skb :=
  match r with
  | .txc _ =>
    if p.isoTxMarkThresh < bytes + pkt.size ∧ pkt.isIp then pkt.changeDsfield 0 0x3 else pkt
  | .dest _ _ => pkt

omit [DecidableEq K] [DecidableEq D] in
@[simp] theorem size_marked (p : Params) (r : RlId K D) (bytes : ℕ) (pkt : Skb) :
    (marked p r bytes pkt).size = pkt.size := by
  unfold marked
  cases r with
  | txc t =>
    dsimp only
    split_ifs
    · rfl
    · rfl
  | dest t d => rfl

theorem q_appendWhole (p : Params) (r : RlId K D) (c : C) (pkt : Skb) (s : TxState K D C)
    (hfits : (s.q r c).bytesEnqueued + pkt.size < 2 ^ 64) :
    (appendWhole p r c pkt s).q r c = { s.q r c with
      list := (s.q r c).list ++ [marked p r (s.q r c).bytesEnqueued pkt]
      bytesEnqueued := (s.q r c).bytesEnqueued + pkt.size } := by
  have htail : ∀ (r : RlId K D) (skb : Skb), skb.size = pkt.size →
      (s.q r c).bytesEnqueued + pkt.size < 2 ^ 64 → (queueTail r c skb s).q r c = { s.q r c with
        list := (s.q r c).list ++ [skb]
        bytesEnqueued := (s.q r c).bytesEnqueued + pkt.size } := by
    intro r skb hsize hfits
    rw [queueTail, TxState.q_modifyQ_self, hsize, u64_of_lt hfits]
  unfold appendWhole marked
  cases r with
  | txc t =>
    dsimp only
    rw [u64_of_lt hfits]
    split_ifs
    · exact htail _ _ rfl hfits
    · exact htail _ _ rfl hfits
  | dest t d => exact htail _ _ rfl hfits

/-! ### Both paths -/

instance (p : Params) (k : Kernel) (r : RlId K D) (pkt : Skb) (s : TxState K D C) :
    Decidable (Splits p k r pkt s) :=
  inferInstanceAs (Decidable (_ ∧ _))

/-- What `iso_rl_enqueue` appends. -/
def added (p : Params) (k : Kernel) (r : RlId K D) (pkt : Skb) (c : C) (s : TxState K D C) :
    List Skb :=
  if Splits p k r pkt s then
    fitting p (s.q r c).bytesEnqueued ((k.skbGsoSegment pkt).getD [])
  else if (s.q r c).bytesEnqueued + pkt.size ≤ p.isoMaxQueueLenBytes then
    [marked p r (s.q r c).bytesEnqueued pkt]
  else []

/-- What `iso_rl_enqueue` would like to append: the segments of the packet, or the packet. -/
def pieces (p : Params) (k : Kernel) (r : RlId K D) (pkt : Skb) (s : TxState K D C) : List Skb :=
  if Splits p k r pkt s then (k.skbGsoSegment pkt).getD [] else [pkt]

/-- The bytes in the queue with the first pieces of the packet, up to the `n`-th. -/
def bytesWith (p : Params) (k : Kernel) (r : RlId K D) (pkt : Skb) (c : C)
    (s : TxState K D C) (n : ℕ) :
    ℕ :=
  (s.q r c).bytesEnqueued + (((pieces p k r pkt s).take (n + 1)).map Skb.size).sum

omit [DecidableEq C] in
/-- The sizes of what is appended are those of the first pieces. -/
theorem sizes_added_isPrefix (p : Params) (k : Kernel) (r : RlId K D) (pkt : Skb) (c : C)
    (s : TxState K D C) :
    (added p k r pkt c s).map Skb.size <+: (pieces p k r pkt s).map Skb.size := by
  unfold added pieces
  split_ifs
  · exact (fitting_isPrefix p _ _).map Skb.size
  · simp
  · exact List.nil_prefix

/-- The queue after `iso_rl_enqueue`, if the bytes queued and the length of the packet do not exceed
the limit by `2 ^ 31`. -/
theorem q_isoRlEnqueue (p : Params) (k : Kernel) (r : RlId K D) (pkt : Skb) (c : C)
    (s : TxState K D C)
    (hbytes : (s.q r c).bytesEnqueued + pkt.size < p.isoMaxQueueLenBytes + 2 ^ 31) :
    (isoRlEnqueue p k r pkt c s).2.q r c = { s.q r c with
      list := (s.q r c).list ++ added p k r pkt c s
      bytesEnqueued := (s.q r c).bytesEnqueued + ((added p k r pkt c s).map Skb.size).sum } := by
  have hlimit := p.isoMaxQueueLenBytes_lt
  have hfits : (s.q r c).bytesEnqueued + pkt.size < 2 ^ 64 := by omega
  unfold added
  by_cases hsplits : Splits p k r pkt s
  · rw [if_pos hsplits]
    have hpath := not_splits_iff.not.mp (not_not_intro hsplits)
    rw [isoRlEnqueue]
    simp only [hpath, ↓reduceIte]
    cases k.skbGsoSegment pkt with
    | none => simp [fitting]
    | some segs => simp [q_foldl_appendSegment]
  · rw [if_neg hsplits]
    have hpath := not_splits_iff.mp hsplits
    rw [isoRlEnqueue]
    simp only [hpath, ↓reduceIte, q_isoRlClock, u64_of_lt hfits]
    by_cases hover : p.isoMaxQueueLenBytes < (s.q r c).bytesEnqueued + pkt.size
    · have hdrop := not_trim hlimit hbytes hover
      rw [if_neg (Nat.not_le.mpr hover)]
      simp [hover, hdrop]
    · rw [if_pos (Nat.le_of_not_lt hover)]
      simp only [hover, ↓reduceIte]
      rw [q_appendWhole _ _ _ _ _ (by simpa using hfits)]
      simp

end EyeQ.Rl
