import NetFT.Types
import NetFT.Detail.Sequence
import NetFT.Detail.Protocol

/-! The members of `Client::Impl` and its critical sections as functions on them
(`client_impl.cpp`, `fault_latch.cpp`, `time.hpp`). The mutexes are not members here: which
thread holds which mutex is part of the threads' state (`NetFT.Client.Threads`). A condition
variable is the list of the threads that are enqueued on it. -/

namespace NetFT.Client
open Detail

/-- A thread of the application, or the `n`-th worker thread the client created. -/
inductive Tid
  | client (n : Nat)
  | worker (n : Nat)
  deriving DecidableEq, Repr

inductive SessionResult
  | stopped | sensorConfiguration | timeout | socket | seriousStatus | ftStall | ftBackward
  | malformedStorm | callback
  deriving DecidableEq, Repr

structure SessionOutcome where
  result : SessionResult
  message : String
  receivedValidRecord : Bool
  deriving DecidableEq, Repr

def faultFor : SessionResult → FaultCode
  | .sensorConfiguration => .sensorConfiguration
  | .timeout => .timeout
  | .socket => .socket
  | .seriousStatus => .seriousStatus
  | .ftStall => .ftStall
  | .ftBackward => .ftBackward
  | .malformedStorm => .malformedStorm
  | .callback => .callback
  | .stopped => .none

def messageFor : SessionResult → String
  | .sensorConfiguration => "sensor configuration discovery failed"
  | .timeout => "no valid RDT record before timeout"
  | .socket => "UDP socket failure"
  | .seriousStatus => "serious device status"
  | .ftStall => "FT sequence stalled"
  | .ftBackward => "FT sequence moved backward"
  | .malformedStorm => "malformed packet storm"
  | .callback => "sample callback failed"
  | .stopped => ""

def kMalformedStormThreshold : Nat := 10

/-! ## Deadlines -/

/-- `SteadyClock::duration::max().count()`, also the largest `time_point`. -/
def maxTicks : Nat := 2 ^ 63 - 1

/-- `none` is the `invalid_argument` of a duration outside the range of the steady clock. -/
def checkedDuration (duration : Rat) : Option Nat :=
  let ticks := duration * ticksPerSecond
  if ticks < 0 ∨ ticks ≥ maxTicks then none else some ticks.floor.toNat

def checkedDeadline (origin : TimePoint) (duration : Rat) : Option TimePoint :=
  match checkedDuration duration with
  | none => none
  | some ticks => if origin > maxTicks - ticks then none else some (origin + ticks)

/-! ## Members -/

/-- The descriptor that `UdpTransport` holds, if any, and its shutdown flag. -/
structure UdpTransport where
  socket : Option Nat := none
  shutdownRequested : Bool := false
  deriving DecidableEq, Repr

structure Impl (D : Type) where
  lifecycleCv : List Tid := []
  firstSampleCv : List Tid := []
  worker : Option Nat := none
  activeWorkerId : Option Tid := none
  joining : Bool := false
  /-- The identity of the stored callback; `none` is an empty `std::function`. -/
  callback : Option Nat := none
  transport : UdpTransport := {}
  rdtSequence : RdtSequenceTracker := {}
  ftSequence : FtSequenceTracker := {}
  stopping : Bool := false
  workerExited : Bool := true
  sessionStarted : Bool := false
  faultLatch : FaultCode := .none
  health : HealthSnapshot D := {}
  latest : Option (Sample D) := none
  lastDeliveryAt : TimePoint := 0
  lastRecordAt : TimePoint := 0
  generation : Nat := 0
  deliveredGeneration : Nat := 0
  receiveTimes : List TimePoint := []
  deliveryTimes : List TimePoint := []
  consecutiveMalformed : Nat := 0

variable {D : Type}

namespace Impl

def faulted (i : Impl D) : Bool := i.faultLatch ≠ .none

def setState (i : Impl D) (state : ClientState) : Impl D :=
  { i with health := { i.health with state } }

/-- `FaultLatch::publish`: only the first fault since the last reset is recorded. -/
def publish (i : Impl D) (code : FaultCode) (message : String) : Impl D :=
  if i.faultLatch = .none then
    { i with
      faultLatch := code
      health := { i.health with state := .faulted, faultCode := code, lastError := message } }
  else i

/-! ## The sections of `start` -/

/-- What `start` saves before it resets the client. -/
structure Previous (D : Type) where
  stopping : Bool
  workerExited : Bool
  fault : FaultCode
  callback : Option Nat
  lastDelivery : TimePoint := 0
  health : HealthSnapshot D := {}
  latest : Option (Sample D) := none
  lastRecord : TimePoint := 0
  generation : Nat := 0
  deliveredGeneration : Nat := 0
  receiveTimes : List TimePoint := []
  deliveryTimes : List TimePoint := []
  consecutiveMalformed : Nat := 0

def saveFlags (i : Impl D) : Previous D where
  stopping := i.stopping
  workerExited := i.workerExited
  fault := i.faultLatch
  callback := i.callback

def saveData (i : Impl D) (p : Previous D) : Previous D :=
  { p with
    health := i.health
    latest := i.latest
    lastRecord := i.lastRecordAt
    generation := i.generation
    deliveredGeneration := i.deliveredGeneration
    receiveTimes := i.receiveTimes
    deliveryTimes := i.deliveryTimes
    consecutiveMalformed := i.consecutiveMalformed }

def resetData (i : Impl D) : Impl D :=
  { i with
    faultLatch := .none
    health := { i.health with
      state := .connecting
      faultCode := .none
      lastError := ""
      receiveRateHz := 0
      deliveryRateHz := 0 }
    latest := none
    lastRecordAt := 0
    generation := i.generation + 1
    deliveredGeneration := 0
    receiveTimes := []
    deliveryTimes := []
    consecutiveMalformed := 0 }

def restoreData (i : Impl D) (p : Previous D) : Impl D :=
  { i with
    health := p.health
    latest := p.latest
    lastRecordAt := p.lastRecord
    generation := p.generation
    deliveredGeneration := p.deliveredGeneration
    receiveTimes := p.receiveTimes
    deliveryTimes := p.deliveryTimes
    consecutiveMalformed := p.consecutiveMalformed }

/-! ## The sections of the other entry points -/

/-- The test that `bias` makes before it sends anything. -/
def biasAllowed (i : Impl D) : Bool :=
  !(i.stopping || !i.sessionStarted || i.faulted || i.health.state ≠ .streaming)

/-- The predicate of the wait in `wait_for_first_sample`. -/
def waitOver (i : Impl D) (captured : Nat) : Bool :=
  i.generation ≠ captured || i.deliveredGeneration = captured || i.stopping || i.faulted

/-- The value `wait_for_first_sample` returns after its wait. -/
def waitResult (i : Impl D) (captured : Nat) : Bool :=
  i.generation = captured && i.deliveredGeneration = captured

/-- Entries are popped from the front while they are more than one second old. -/
def pruneRateWindow (now : TimePoint) : List TimePoint → List TimePoint
  | [] => []
  | t :: times => if now - t > ticksPerSecond then pruneRateWindow now times else t :: times

/-- `health()` at clock value `now`: the snapshot, and the pruned rate windows it leaves. -/
def takeHealth (i : Impl D) (now : TimePoint) : Impl D × HealthSnapshot D :=
  let receiveTimes := pruneRateWindow now i.receiveTimes
  let deliveryTimes := pruneRateWindow now i.deliveryTimes
  ({ i with receiveTimes, deliveryTimes },
    { i.health with
      faultCode := i.faultLatch
      state := if i.faultLatch ≠ .none then .faulted else i.health.state
      receiveRateHz := receiveTimes.length
      deliveryRateHz := deliveryTimes.length
      lastRecordAge := if i.lastRecordAt ≠ 0 then some ((now : Int) - i.lastRecordAt)
        else i.health.lastRecordAge })

/-! ## The sections of a session -/

def sameCalibration [DecidableEq D] (left right : Calibration D) : Bool :=
  left.countsPerForceUnit = right.countsPerForceUnit &&
    left.countsPerTorqueUnit = right.countsPerTorqueUnit &&
    left.forceUnit = right.forceUnit && left.torqueUnit = right.torqueUnit

def applyConfiguration [DecidableEq D] (i : Impl D) (configuration : SensorConfiguration D) :
    Impl D :=
  match i.health.sensorConfiguration with
  | some previous =>
    if sameCalibration previous.calibration configuration.calibration then
      { i with health := { i.health with
          sensorConfiguration := some { configuration with revision := previous.revision } } }
    else
      { i with health := { i.health with
          sensorConfiguration := some { configuration with revision := previous.revision + 1 }
          calibrationChangeCount := i.health.calibrationChangeCount + 1 } }
  | none =>
    { i with health := { i.health with
        sensorConfiguration := some { configuration with revision := 1 } } }

def countTimeout (i : Impl D) : Impl D :=
  { i with health := { i.health with timeoutCount := i.health.timeoutCount + 1 } }

def countMalformed (i : Impl D) : Impl D :=
  { i with
    health := { i.health with malformedCount := i.health.malformedCount + 1 }
    consecutiveMalformed := i.consecutiveMalformed + 1 }

/-- The step of `run` into its reconnect delay. -/
def enterBackoff (i : Impl D) (message : String) : Impl D :=
  { i with health := { i.health with
      lastError := message
      state := .backoff
      reconnectCount := i.health.reconnectCount + 1 } }

def recordCallbackError (i : Impl D) (message : String) : Impl D :=
  { i with health := { i.health with
      callbackErrorCount := i.health.callbackErrorCount + 1
      lastError := message } }

def commitDelivery (i : Impl D) (sample : Sample D) : Impl D :=
  let deliveryTimes := pruneRateWindow sample.receivedAt (i.deliveryTimes ++ [sample.receivedAt])
  { i with
    latest := some sample
    health := { i.health with
      deliveredCount := i.health.deliveredCount + 1
      deliveryRateHz := deliveryTimes.length }
    deliveryTimes
    deliveredGeneration := i.generation }

end Impl

end NetFT.Client
