import Mathlib.Algebra.Order.Field.Rat

/-! The public data types of the client. Instants and durations of the steady clock are counted
in its ticks, durations that the source keeps as a `double` number of seconds are exact
rationals, and the `double` values of a calibration and of a sample belong to an abstract type
`D` with the operations the client uses on them. -/

namespace NetFT

/-- What the client uses of `double`: conversion of a raw count, division, and the finiteness
test. -/
class Double (D : Type) where
  ofInt : Int → D
  div : D → D → D
  isfinite : D → Bool

/-- Exact arithmetic, in which every value is finite. -/
instance : Double Rat where
  ofInt i := i
  div := (· / ·)
  isfinite _ := true

inductive ForceUnit
  | unknown | poundForce | newton | kiloPoundForce | kiloNewton | kilogramForce
  deriving DecidableEq, Repr

inductive TorqueUnit
  | unknown | poundForceInch | poundForceFoot | newtonMeter | newtonMillimeter
  | kilogramForceCentimeter | kiloNewtonMeter
  deriving DecidableEq, Repr

inductive CalibrationSource
  | sensor | override
  deriving DecidableEq, Repr

inductive RecoveryPolicy
  | reconnect | failStop
  deriving DecidableEq, Repr

inductive ClientState
  | stopped | connecting | streaming | backoff | faulted
  deriving DecidableEq, Repr

inductive FaultCode
  | none | sensorConfiguration | timeout | socket | seriousStatus | ftStall | ftBackward
  | malformedStorm | callback
  deriving DecidableEq, Repr

/-- A `steady_clock` instant. The default-constructed `time_point` is `0`. -/
abbrev TimePoint := Nat

/-- Ticks of the steady clock in one second. -/
def ticksPerSecond : Nat := 1000000000

structure Calibration (D : Type) where
  countsPerForceUnit : D
  countsPerTorqueUnit : D
  forceUnit : ForceUnit
  torqueUnit : TorqueUnit
  deriving DecidableEq, Repr

structure SensorConfiguration (D : Type) where
  productName : String
  calibration : Calibration D
  source : CalibrationSource
  revision : Nat
  deriving DecidableEq, Repr

/-- The configuration that `validate` accepted when the client was constructed. Host and port
only parametrise the environment's answers and are left out. -/
structure Config (D : Type) where
  receiveTimeout : Rat
  reconnectInitialDelay : Rat
  reconnectMaxDelay : Rat
  sampleRateLimitHz : Rat
  deliverSamplesWithErrorStatus : Bool
  recoveryPolicy : RecoveryPolicy
  calibrationOverride : Option (Calibration D)

structure Sample (D : Type) where
  rdtSequence : UInt32
  ftSequence : UInt32
  status : UInt32
  rawWrench : List Int32
  force : List D
  torque : List D
  forceUnit : ForceUnit
  torqueUnit : TorqueUnit
  configurationRevision : Nat
  receivedAt : TimePoint
  deriving DecidableEq, Repr

structure HealthSnapshot (D : Type) where
  state : ClientState := .stopped
  faultCode : FaultCode := .none
  sensorConfiguration : Option (SensorConfiguration D) := none
  lastRdtSequence : Option UInt32 := none
  lastFtSequence : Option UInt32 := none
  lastStatus : UInt32 := 0
  receiveRateHz : Nat := 0
  deliveryRateHz : Nat := 0
  receivedCount : Nat := 0
  deliveredCount : Nat := 0
  rateLimitedCount : Nat := 0
  deviceErrorCount : Nat := 0
  warningCount : Nat := 0
  lostCount : Nat := 0
  duplicateCount : Nat := 0
  outOfOrderCount : Nat := 0
  malformedCount : Nat := 0
  reconnectCount : Nat := 0
  timeoutCount : Nat := 0
  callbackErrorCount : Nat := 0
  ftStallCount : Nat := 0
  ftBackwardCount : Nat := 0
  ftRestartCount : Nat := 0
  calibrationChangeCount : Nat := 0
  lastRecordAge : Option Int := none
  lastError : String := ""
  lastFtProgress : String := "unknown"
  deriving DecidableEq, Repr

end NetFT
