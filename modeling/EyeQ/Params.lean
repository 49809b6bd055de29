import EyeQ.Ktime

/-!
# Parameters

The tunables of `params.c` that the modelled functions read, under the source's names and with the
source's defaults, and the constants of `params.h`.  Each tunable is a C `int` that a sysctl can
set; the model takes it as a natural number.

`isoExiting` is the module's global flag of the same name, which stays `0` until the module is
unloaded.
-/

namespace EyeQ

/-- The default of `ISO_MAX_QUEUE_LEN_BYTES` is a C `int`. -/
theorem defaultQueueLen_lt : 128 * 1024 < 2 ^ 31 := by decide

structure Params where
  isoMaxTxRate : ℕ := 9800
  isoVqDrainRateMbps : ℕ := 9000
  isoMaxBurstTimeUs : ℕ := 150
  isoMinBurstBytes : ℕ := 65536
  isoRfairInitial : ℕ := 5000
  isoMinRfair : ℕ := 10
  isoRfairDecreaseIntervalUs : ℕ := 120
  isoRfairFeedbackTimeoutUs : ℕ := 1000 * 1000
  isoAutoGenerateFeedback : Bool := true
  isoFeedbackIntervalUs : ℕ := 100
  isoFeedbackIntervalBytes : ℕ := 10000
  isoFeedbackPacketIpproto : ℕ := 143
  isoRlUpdateIntervalUs : ℕ := 20
  isoVqUpdateIntervalUs : ℕ := 200
  isoMaxQueueLenBytes : ℕ := 128 * 1024
  isoTxMarkThresh : ℕ := 100 * 1024
  isoGsoThreshRate : ℕ := 1000
  isoGsoMinSplitBytes : ℕ := 10000
  isoGlobalEnabled : Bool := true
  isoTxcUpdateIntervalUs : ℕ := 200
  isoEcnMarkThreshBytes : ℕ := 30 * 1500
  isoVqHrcpUs : ℕ := 1000
  isoExiting : Bool := false
  /-- The queue limit is a C `int`. -/
  isoMaxQueueLenBytes_lt : isoMaxQueueLenBytes < 2 ^ 31 := by
    first | exact defaultQueueLen_lt | decide

/-- A configuration in which the controllers make sense: the rates are ordered and the products the
controllers form with them fit their types, an update interval has passed only when time has passed,
and feedback packets have a protocol number. -/
structure Params.Sane (p : Params) : Prop where
  minRfair_pos : 0 < p.isoMinRfair
  minRfair_le : p.isoMinRfair ≤ p.isoVqDrainRateMbps
  drainRate_le : p.isoVqDrainRateMbps ≤ p.isoMaxTxRate
  drainRate_lt : 1024 * (2 * p.isoVqDrainRateMbps) < 2 ^ 32
  vqUpdateInterval_pos : 0 < p.isoVqUpdateIntervalUs
  ipproto_lt : p.isoFeedbackPacketIpproto < 256

/-- The defaults are such a configuration. -/
theorem Params.sane_default : ({} : Params).Sane := by
  constructor
  all_goals decide

/-- `ISO_IDLE_TIMEOUT_US`. -/
def isoIdleTimeoutUs : ℕ := 100 * 1000 * 10 * 1000

/-- `ISO_IDLE_RATE`. -/
def isoIdleRate : ℕ := 2500

/-- `ISO_FEEDBACK_PACKET_SIZE`. -/
def isoFeedbackPacketSize : ℕ := 64

end EyeQ
