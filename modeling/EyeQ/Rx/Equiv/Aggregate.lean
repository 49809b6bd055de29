import EyeQ.Rx.Equiv.Steer
import EyeQ.Sum.Basic
import Mathlib.Algebra.Order.BigOperators.Group.List

/-!
# The aggregated receive statistics

Every CPU counts the packets and bytes it receives, and at most once in `ISO_VQ_UPDATE_INTERVAL_US`
microseconds `iso_rx_stats_update` adds the counters up in `global_stats` and computes `rx_rate`
from the bytes that are new.  `Metered` is a receive context together with the packets it has
counted: those that the last aggregation has seen, and those that arrived since.

`isoRxStatsUpdate_aggregated` says what an aggregation computes from these packets.  The bytes are
added up modulo `2 ^ 64`.  The number of packets is the counter of the last CPU that is online,
because the loop assigns where it should add.  So the statistics are exact if and only if that CPU
has received everything and nothing overflows (`Aggregated.exact_iff`), and a run keeps exact
statistics if and only if this is so at each of its aggregations (`Metered.statistics_exact_iff`).
-/

namespace EyeQ.RxContext

open Machine

variable {C : Type} [DecidableEq C]

/-! ### What the CPUs have received -/

/-- The bytes of the packets, each with the CPU that received it. -/
def bytes (packets : List (C × Skb)) : ℕ := (packets.map fun x => x.2.size).sum

/-- The packets that the CPU `c` received. -/
def onCpu (c : C) (packets : List (C × Skb)) : List (C × Skb) := packets.filter (·.1 = c)

section

omit [DecidableEq C]

@[simp] theorem bytes_append (xs ys : List (C × Skb)) : bytes (xs ++ ys) = bytes xs + bytes ys := by
  rw [bytes, List.map_append, List.sum_append]
  rfl

@[simp] theorem bytes_singleton (c : C) (skb : Skb) : bytes [(c, skb)] = skb.size := by simp [bytes]

/-- A packet has a header. -/
theorem length_le_bytes (packets : List (C × Skb)) : packets.length ≤ bytes packets := by
  induction packets with
  | nil => exact Nat.zero_le _
  | cons x xs ih =>
    have hsize : 1 ≤ x.2.size := Nat.le_add_right_of_le (by decide)
    simp only [bytes, List.map_cons, List.sum_cons, List.length_cons] at ih ⊢
    omega

end

theorem onCpu_append_self (c : C) (skb : Skb) (packets : List (C × Skb)) :
    onCpu c (packets ++ [(c, skb)]) = onCpu c packets ++ [(c, skb)] := by
  simp [onCpu]

theorem onCpu_append_of_ne {c c' : C} (h : c' ≠ c) (skb : Skb) (packets : List (C × Skb)) :
    onCpu c' (packets ++ [(c, skb)]) = onCpu c' packets := by
  simp [onCpu, h.symm]

theorem length_onCpu_le (c : C) (packets : List (C × Skb)) :
    (onCpu c packets).length ≤ packets.length :=
  List.length_filter_le ..

theorem bytes_onCpu_le (c : C) (packets : List (C × Skb)) :
    bytes (onCpu c packets) ≤ bytes packets :=
  (List.filter_sublist.map _).sum_le_sum (fun _ _ => Nat.zero_le _)

/-- One CPU has received everything if it has received that many packets. -/
theorem length_onCpu_eq_iff {c : C} {packets : List (C × Skb)} :
    (onCpu c packets).length = packets.length ↔ ∀ x ∈ packets, x.1 = c := by
  simp [onCpu, List.length_filter_eq_length_iff]

/-! ### The counters -/

/-- The counters of the CPUs are those of `packets`, modulo `2 ^ 64`. -/
structure Counted (packets : List (C × Skb)) (stats : C → RxStats) : Prop where
  rxBytes : ∀ c, (stats c).rxBytes = u64 (bytes (onCpu c packets))
  rxPackets : ∀ c, (stats c).rxPackets = u64 (onCpu c packets).length

variable {p : Params} {online : List C} {packets window : List (C × Skb)} {ctx ctx' : RxContext C}

theorem Counted.countPacket (h : Counted packets ctx.stats) (c : C) (skb : Skb) :
    Counted (packets ++ [(c, skb)]) (ctx.countPacket c skb).stats := by
  constructor
  · intro c'
    by_cases hc : c' = c
    · subst hc
      simp only [RxContext.countPacket, Function.update_self, h.rxBytes,
        onCpu_append_self, bytes_append, bytes_singleton, u64]
      omega
    · simp only [RxContext.countPacket, Function.update_of_ne hc, h.rxBytes, onCpu_append_of_ne hc]
  · intro c'
    by_cases hc : c' = c
    · subst hc
      simp only [RxContext.countPacket, Function.update_self, h.rxPackets, onCpu_append_self,
        List.length_append, List.length_singleton, u64]
      omega
    · simp only [RxContext.countPacket, Function.update_of_ne hc, h.rxPackets,
        onCpu_append_of_ne hc]

section Sums

variable {stats : C → RxStats} (h : Counted packets stats) (hl : online.Nodup)
  (hall : ∀ c, c ∈ online)

include hl hall in
omit h in
theorem sum_bytes_onCpu (packets : List (C × Skb)) :
    (online.map fun c => bytes (onCpu c packets)).sum = bytes packets :=
  sum_map_fiber hl Prod.fst (fun x => hall x.1) (fun x : C × Skb => x.2.size) packets

include hl hall in
omit h in
theorem sum_length_onCpu (packets : List (C × Skb)) :
    (online.map fun c => (onCpu c packets).length).sum = packets.length := by
  have hfiber := sum_map_fiber hl Prod.fst (fun x => hall x.1) (fun _ => 1) packets
  simpa [onCpu] using hfiber

include h hl hall in
/-- The sum that the loop forms. -/
theorem Counted.u64_sum_rxBytes : u64 (online.map fun c => (stats c).rxBytes).sum =
    u64 (bytes packets) := by
  simp only [h.rxBytes]
  rw [← sum_bytes_onCpu hl hall packets, u64, u64, List.sum_nat_mod (online.map fun c => bytes _),
    List.map_map]
  rfl

include h hl hall in
theorem Counted.sum_rxBytes (hlt : bytes packets < 2 ^ 64) :
    (online.map fun c => (stats c).rxBytes).sum = bytes packets := by
  have hcpu : ∀ c, (stats c).rxBytes = bytes (onCpu c packets) := fun c => by
    rw [h.rxBytes, u64_of_lt ((bytes_onCpu_le c packets).trans_lt hlt)]
  simp only [hcpu]
  exact sum_bytes_onCpu hl hall packets

include h hl hall in
theorem Counted.sum_rxPackets (hlt : packets.length < 2 ^ 64) :
    (online.map fun c => (stats c).rxPackets).sum = packets.length := by
  have hcpu : ∀ c, (stats c).rxPackets = (onCpu c packets).length := fun c => by
    rw [h.rxPackets, u64_of_lt ((length_onCpu_le c packets).trans_lt hlt)]
  simp only [hcpu]
  exact sum_length_onCpu hl hall packets

end Sums

/-! ### An aggregation -/

/-- The microseconds since the last aggregation: `dt` of `iso_rx_stats_update`. -/
def statsDt (env : RxEnv C) (ctx : RxContext C) : ℕ :=
  u64OfInt (ktimeUsDelta env.statsNow ctx.lastStatsUpdateTime)

/-- This call of `iso_rx_stats_update` goes on to the aggregation. -/
def StatsDue (p : Params) (env : RxEnv C) (ctx : RxContext C) : Prop :=
  p.isoVqUpdateIntervalUs ≤ statsDt env ctx ∧ env.statsLock

instance (p : Params) (env : RxEnv C) (ctx : RxContext C) : Decidable (StatsDue p env ctx) :=
  inferInstanceAs (Decidable (_ ∧ _))

/-- The statistics are exact, after an aggregation that was due `dt` microseconds after the one
before: both fields of `global_stats` are the sums of the counters, they count all `packets`, and
the rate is that of the packets of `window`. -/
structure Exact (online : List C) (packets window : List (C × Skb)) (dt : ℕ) (ctx : RxContext C) :
    Prop where
  rxBytes_sum : ctx.globalStats.rxBytes = (online.map fun c => (ctx.stats c).rxBytes).sum
  rxPackets_sum : ctx.globalStats.rxPackets = (online.map fun c => (ctx.stats c).rxPackets).sum
  rxBytes_eq : ctx.globalStats.rxBytes = bytes packets
  rxPackets_eq : ctx.globalStats.rxPackets = packets.length
  rxRate_eq : ctx.rxRate = 8 * bytes window / dt

/-- The last CPU of the online mask has received all `packets`, their bytes fit `global_stats`, and
the bits of `window` and their rate fit the types in which they are computed. -/
structure OneCpu (online : List C) (packets window : List (C × Skb)) (dt : ℕ) : Prop where
  last : ∀ x ∈ packets, online.getLast? = some x.1
  bytes_lt : bytes packets < 2 ^ 64
  bits_lt : 8 * bytes window < 2 ^ 64
  rate_lt : 8 * bytes window < 2 ^ 32 * dt

/-- What an aggregation leaves behind. -/
structure Aggregated (online : List C) (packets window : List (C × Skb)) (dt : ℕ)
    (ctx : RxContext C) :
    Prop where
  stats : Counted packets ctx.stats
  rxBytes : ctx.globalStats.rxBytes = u64 (bytes packets)
  rxPackets : ∀ c, online.getLast? = some c →
    ctx.globalStats.rxPackets = u64 (onCpu c packets).length
  rxRate : ctx.rxRate = u32 (u64 (8 * bytes window) / dt)

omit [DecidableEq C] in
/-- A loop that only assigns. -/
theorem foldl_assign {c : C} (hlast : online.getLast? = some c) (f : C → ℕ) (n : ℕ) :
    online.foldl (fun _ c => f c) n = f c := by
  obtain ⟨init, rfl⟩ := List.getLast?_eq_some_iff.1 hlast
  rw [List.foldl_append]
  rfl

variable {env : RxEnv C} {skb : Skb}

theorem isoRxStatsUpdate_of_not_due (hdue : ¬ StatsDue p env ctx) :
    isoRxStatsUpdate p online env skb ctx = .ok (ctx.countPacket env.cpu skb) := by
  have hearly : statsDt env ctx < p.isoVqUpdateIntervalUs ∨ ¬ env.statsLock := by
    rw [StatsDue, not_and_or, not_le] at hdue
    exact hdue
  exact if_pos hearly

/-- The context after an aggregation at `now` that has found the rate `rate`. -/
def store (online : List C) (now rate : ℕ) (ctx : RxContext C) : RxContext C :=
  { ctx with
    lastStatsUpdateTime := now
    globalStatsLast := ctx.globalStats
    globalStats :=
      { rxBytes := u64 (online.map fun c => (ctx.stats c).rxBytes).sum
        rxPackets := online.foldl (fun _ c => (ctx.stats c).rxPackets) 0 }
    rxRate := u32 rate }

theorem isoRxStatsUpdate_of_due (hdue : StatsDue p env ctx) :
    isoRxStatsUpdate p online env skb ctx = (do
      let total := u64 (online.map fun c => ((ctx.countPacket env.cpu skb).stats c).rxBytes).sum
      let rate ← udiv (u64 (sub64 total ctx.globalStats.rxBytes * 8)) (statsDt env ctx)
      pure (store online env.statsNow rate (ctx.countPacket env.cpu skb))) := by
  have hearly : ¬ (statsDt env ctx < p.isoVqUpdateIntervalUs ∨ ¬ env.statsLock) := by
    rw [not_or, not_lt, not_not]
    exact hdue
  exact if_neg hearly

/-- An aggregation, where no time has passed. -/
theorem isoRxStatsUpdate_divide (hdue : StatsDue p env ctx) (hdt : statsDt env ctx = 0) :
    isoRxStatsUpdate p online env skb ctx = .error .divide := by
  rw [isoRxStatsUpdate_of_due hdue, hdt]
  rfl

/-- An aggregation, where time has passed. -/
theorem isoRxStatsUpdate_aggregated {old : List (C × Skb)} (hl : online.Nodup)
    (hall : ∀ c, c ∈ online) (hdue : StatsDue p env ctx) (hdt : 0 < statsDt env ctx)
    (hcount : Counted (old ++ window) (ctx.countPacket env.cpu skb).stats)
    (hold : ctx.globalStats.rxBytes = u64 (bytes old)) :
    ∃ ctx', isoRxStatsUpdate p online env skb ctx = .ok ctx' ∧
      Aggregated online (old ++ window) window (statsDt env ctx) ctx' := by
  have hsum := hcount.u64_sum_rxBytes hl hall
  have hbits : u64 (sub64 (u64 (bytes (old ++ window))) (u64 (bytes old)) * 8) =
      u64 (8 * bytes window) := by
    rw [bytes_append, sub64_u64_u64]
    unfold u64
    omega
  refine ⟨store online env.statsNow (u64 (8 * bytes window) / statsDt env ctx)
    (ctx.countPacket env.cpu skb), ?_, hcount, hsum, fun c hlast => ?_, rfl⟩
  · rw [isoRxStatsUpdate_of_due hdue, hsum, hold]
    simp only [hbits, udiv_of_pos _ hdt]
    rfl
  · exact (foldl_assign hlast _ 0).trans (hcount.rxPackets c)

/-- The statistics are exact if one CPU has received everything, and only then. -/
theorem Aggregated.exact_iff {dt : ℕ} (h : Aggregated online packets window dt ctx)
    (hl : online.Nodup) (hall : ∀ c, c ∈ online) {last : C}
    (hlast : online.getLast? = some last) (hpos : 0 < dt) (hdt : dt < 2 ^ 64) :
    Exact online packets window dt ctx ↔ OneCpu online packets window dt := by
  have hpackets := h.rxPackets last hlast
  have hrate := u32_u64_div_eq_iff (n := 8 * bytes window) hpos hdt
  rw [← h.rxRate] at hrate
  constructor
  · intro hexact
    obtain ⟨hbits, hmbps⟩ := hrate.1 hexact.rxRate_eq
    refine ⟨fun x hx => ?_, ?_, hbits, hmbps⟩
    · -- the counter of the last CPU is at most its number of packets, and that at most the number
      -- of all
      have hle := length_onCpu_le last packets
      have hwrap := u64_le (onCpu last packets).length
      have heq : (onCpu last packets).length = packets.length := by
        have hall := hexact.rxPackets_eq
        omega
      rw [hlast, length_onCpu_eq_iff.1 heq x hx]
    · rw [← hexact.rxBytes_eq, h.rxBytes]
      exact Nat.mod_lt _ (by decide)
  · rintro ⟨hone, hbytes, hbits, hmbps⟩
    have hlen : packets.length < 2 ^ 64 := (length_le_bytes packets).trans_lt hbytes
    have hown : (onCpu last packets).length = packets.length := length_onCpu_eq_iff.2 fun x hx =>
      (Option.some.inj (hlast.symm.trans (hone x hx))).symm
    have hbytes' : ctx.globalStats.rxBytes = bytes packets := h.rxBytes.trans (u64_of_lt hbytes)
    have hpackets' : ctx.globalStats.rxPackets = packets.length := by
      rw [hpackets, hown, u64_of_lt hlen]
    exact ⟨hbytes'.trans (h.stats.sum_rxBytes hl hall hbytes).symm,
      hpackets'.trans (h.stats.sum_rxPackets hl hall hlen).symm, hbytes', hpackets',
      hrate.2 ⟨hbits, hmbps⟩⟩

/-! ### Runs -/

/-- A receive context, and the packets it has counted: `old` up to the last aggregation, and `new`
since. -/
structure Metered (C : Type) where
  ctx : RxContext C
  old : List (C × Skb) := []
  new : List (C × Skb) := []

namespace Metered

/-- After `iso_rx_init`. -/
def start (C : Type) (p : Params) (statsNow rcpNow : ℕ) : Metered C :=
  { ctx := init p statsNow rcpNow }

omit [DecidableEq C] in
/-- The packets since the last aggregation, with that of the call. -/
def arrived (s : Metered C) (call : RxEnv C × Skb) : List (C × Skb) :=
  s.new ++ [(call.1.cpu, call.2)]

/-- One call of `iso_rx_stats_update`. -/
def step (p : Params) (online : List C) (s : Metered C) (call : RxEnv C × Skb) :
    Except Fault (Metered C) := do
  let ctx ← isoRxStatsUpdate p online call.1 call.2 s.ctx
  pure (if StatsDue p call.1 s.ctx then ⟨ctx, s.old ++ s.arrived call, []⟩ else
    ⟨ctx, s.old, s.arrived call⟩)

/-- If the call aggregates, the statistics are exact right after it. -/
def Reports (p : Params) (online : List C) (s : Metered C) (call : RxEnv C × Skb) : Prop :=
  StatsDue p call.1 s.ctx →
    Ends (Exact online (s.old ++ s.arrived call) (s.arrived call) (statsDt call.1 s.ctx))
      (fun _ => False) (isoRxStatsUpdate p online call.1 call.2 s.ctx)

/-- If the call aggregates, everything up to it has been received by one CPU. -/
def Alone (p : Params) (online : List C) (s : Metered C) (call : RxEnv C × Skb) : Prop :=
  StatsDue p call.1 s.ctx →
    OneCpu online (s.old ++ s.arrived call) (s.arrived call) (statsDt call.1 s.ctx)

/-- The counters are those of the packets, and `global_stats` has the bytes of the old ones. -/
structure Inv (s : Metered C) : Prop where
  stats : Counted (s.old ++ s.new) s.ctx.stats
  rxBytes : s.ctx.globalStats.rxBytes = u64 (bytes s.old)

theorem start_inv (p : Params) (statsNow rcpNow : ℕ) : (start C p statsNow rcpNow).Inv where
  stats := ⟨fun _ => rfl, fun _ => rfl⟩
  rxBytes := rfl

variable {s t : Metered C} {call : RxEnv C × Skb}

theorem Inv.counted (h : s.Inv) (call : RxEnv C × Skb) :
    Counted (s.old ++ s.arrived call) (s.ctx.countPacket call.1.cpu call.2).stats := by
  rw [arrived, ← List.append_assoc]
  exact h.stats.countPacket call.1.cpu call.2

theorem Inv.step (h : s.Inv) (hl : online.Nodup) (hall : ∀ c, c ∈ online)
    (hstep : Metered.step p online s call = .ok t) : t.Inv := by
  obtain ⟨ctx, hctx, ht⟩ := bind_eq_ok hstep
  obtain rfl := Except.ok.inj ht
  by_cases hdue : StatsDue p call.1 s.ctx
  · rw [if_pos hdue]
    rcases Nat.eq_zero_or_pos (statsDt call.1 s.ctx) with hzero | hpos
    · rw [isoRxStatsUpdate_divide hdue hzero] at hctx
      exact nomatch hctx
    · obtain ⟨ctx', hctx', hagg⟩ :=
        isoRxStatsUpdate_aggregated hl hall hdue hpos (h.counted call) h.rxBytes
      obtain rfl := Except.ok.inj (hctx.symm.trans hctx')
      refine ⟨?_, hagg.rxBytes⟩
      rw [List.append_nil]
      exact hagg.stats
  · rw [if_neg hdue]
    rw [isoRxStatsUpdate_of_not_due hdue] at hctx
    obtain rfl := Except.ok.inj hctx
    exact ⟨h.counted call, h.rxBytes⟩

/-- One call reports exactly if one CPU has received everything so far, and only then. -/
theorem Inv.reports_iff (h : s.Inv) (hl : online.Nodup) (hall : ∀ c, c ∈ online)
    (call : RxEnv C × Skb) : Reports p online s call ↔ Alone p online s call := by
  refine imp_congr_right fun hdue => ?_
  have hdt : statsDt call.1 s.ctx < 2 ^ 64 := u64OfInt_lt _
  rcases Nat.eq_zero_or_pos (statsDt call.1 s.ctx) with hzero | hpos
  · rw [isoRxStatsUpdate_divide hdue hzero]
    constructor
    · exact fun hends => absurd hends id
    · intro hone
      have hlt := hone.rate_lt
      omega
  · obtain ⟨ctx', hctx', hagg⟩ := isoRxStatsUpdate_aggregated hl hall hdue hpos
      (h.counted call) h.rxBytes
    have hne : online ≠ [] := List.ne_nil_of_mem (hall call.1.cpu)
    rw [hctx']
    exact hagg.exact_iff hl hall (List.getLast?_eq_some_getLast hne) hpos hdt

/-- For any CPUs `online`, each of which may make any of the calls, from `iso_rx_init` on: the
statistics are exact right after each aggregation if and only if, at each aggregation, the last CPU
has received all packets so far, and nothing overflows. -/
theorem statistics_exact_iff (hl : online.Nodup) (hall : ∀ c, c ∈ online) (p : Params)
    (statsNow rcpNow : ℕ) (calls : List (RxEnv C × Skb)) :
    GuardedE (Metered.step p online) (Reports p online) (start C p statsNow rcpNow) calls ↔
      GuardedE (Metered.step p online) (Alone p online) (start C p statsNow rcpNow) calls :=
  guardedE_congr Inv (fun _ _ _ hs _ hstep => hs.step hl hall hstep)
    (fun _ call hs => hs.reports_iff hl hall call) (start_inv p statsNow rcpNow) calls

/-- A packet of 1514 bytes that the CPU `c` receives `us` microseconds after `iso_rx_init`. -/
def packetAt (c : Bool) (us : ℕ) : RxEnv Bool × Skb :=
  (envAt c (1000 * us), .datagram 0 1500 0 0 6 0 0)

/-- Two aggregations of packets that all arrive on the last of two CPUs. -/
theorem statistics_exact_lastCpu :
    GuardedE (Metered.step {} [false, true]) (Reports {} [false, true]) (start Bool {} 0 0)
      [packetAt true 100, packetAt true 200, packetAt true 450] := by
  refine (statistics_exact_iff (by decide) (by decide) {} 0 0 _).2 ?_
  refine guardedE_cons (start Bool {} 0 0) (fun hdue => absurd hdue (by decide)) ?_
  refine guardedE_cons (start Bool {} 0 0) (fun _ => ⟨?_, by decide, by decide, by decide⟩) ?_
  · decide
  refine guardedE_cons (start Bool {} 0 0) (fun _ => ⟨?_, by decide, by decide, by decide⟩) trivial
  decide

/-- The first of two CPUs receives a packet, and `global_stats` counts none. -/
theorem statistics_not_exact :
    ¬ GuardedE (Metered.step {} [false, true]) (Reports {} [false, true]) (start Bool {} 0 0)
      [packetAt false 200] := by
  intro h
  obtain ⟨ctx, hctx, hexact⟩ := (h.1 (by decide)).exists_ok
  have hnone : (fun ctx => ctx.globalStats.rxPackets) <$>
      isoRxStatsUpdate {} [false, true] (packetAt false 200).1 (packetAt false 200).2
        (start Bool {} 0 0).ctx = .ok 0 := rfl
  obtain ⟨ctx', hctx', hzero⟩ := map_eq_ok hnone
  obtain rfl := Except.ok.inj (hctx.symm.trans hctx')
  exact absurd (hzero.symm.trans hexact.rxPackets_eq) (by decide)

end Metered

end EyeQ.RxContext
