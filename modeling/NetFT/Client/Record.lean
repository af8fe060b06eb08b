import NetFT.Client.Impl

/-! `Client::Impl::handle_record`, cut at the places where it releases its mutexes: the
observation and accounting section, the conversion to a sample, and what follows the callback.
`handleRecord` is the function as a whole, for a callback with a given result and no other
thread in between; the worker thread of `NetFT.Client.Threads` takes the pieces one at a
time. -/

namespace NetFT.Client
open Detail

variable {D : Type}

def ftProgressName : FtSequenceKind → String
  | .first => "first"
  | .forward => "forward"
  | .stall => "stall"
  | .backward => "backward"
  | .restart => "restart"

/-- What the accounting section decides about a record. -/
structure Verdict where
  deliver : Bool
  outcome : Option SessionResult
  rateLimited : Bool
  deriving DecidableEq, Repr

/-- The rate-limit test: less than `1 / sample_rate_limit_hz` since the last delivery. -/
def rateLimitHolds (config : Config D) (lastDeliveryAt receivedAt : TimePoint) : Bool :=
  config.sampleRateLimitHz > 0 && lastDeliveryAt ≠ 0 &&
    ((receivedAt : Rat) - lastDeliveryAt) / ticksPerSecond < 1 / config.sampleRateLimitHz

def ftDiscontinuity (ft : FtSequenceKind) : Bool := ft = .stall || ft = .backward

/-- `outcome` after the status and FT checks, before the recovery policy is consulted. -/
def statusOutcome (severity : StatusSeverity) (ft : FtSequenceKind) : Option SessionResult :=
  if severity = .error then some .seriousStatus
  else if ft = .stall then some .ftStall
  else if ft = .backward then some .ftBackward
  else none

def recordVerdict (config : Config D) (lastDeliveryAt receivedAt : TimePoint)
    (rdt : SequenceKind) (ft : FtSequenceKind) (severity : StatusSeverity) : Verdict :=
  let deliver := !(rdt = .duplicate || rdt = .outOfOrder)
  let deliver :=
    if severity = .error then config.deliverSamplesWithErrorStatus && deliver else deliver
  let outcome := statusOutcome severity ft
  let deliver := if ftDiscontinuity ft then false else deliver
  -- under `Reconnect` a stall or a backward step only drops the record
  let outcome :=
    if ftDiscontinuity ft && config.recoveryPolicy = .reconnect &&
        (outcome = some .ftStall || outcome = some .ftBackward) then none
    else outcome
  if deliver && rateLimitHolds config lastDeliveryAt receivedAt then
    { deliver := false, outcome, rateLimited := true }
  else
    { deliver, outcome, rateLimited := false }

namespace Impl

/-- The counters of the accounting section. -/
def countRecord (h : HealthSnapshot D) (rdt : SequenceObservation) (ft : FtSequenceKind)
    (severity : StatusSeverity) (rateLimited : Bool) : HealthSnapshot D :=
  { h with
    receivedCount := h.receivedCount + 1
    lostCount := if rdt.kind = .gap then h.lostCount + rdt.gap.toNat else h.lostCount
    duplicateCount := if rdt.kind = .duplicate then h.duplicateCount + 1 else h.duplicateCount
    outOfOrderCount := if rdt.kind = .outOfOrder then h.outOfOrderCount + 1 else h.outOfOrderCount
    ftStallCount := if ft = .stall then h.ftStallCount + 1 else h.ftStallCount
    ftBackwardCount := if ft = .backward then h.ftBackwardCount + 1 else h.ftBackwardCount
    ftRestartCount := if ft = .restart then h.ftRestartCount + 1 else h.ftRestartCount
    warningCount := if severity = .warn then h.warningCount + 1 else h.warningCount
    deviceErrorCount := if severity = .error then h.deviceErrorCount + 1 else h.deviceErrorCount
    rateLimitedCount := if rateLimited then h.rateLimitedCount + 1 else h.rateLimitedCount }

/-- The verdict of the accounting section on a record. -/
def verdict (config : Config D) (i : Impl D) (record : RawRecord) (receivedAt : TimePoint)
    (rdt : SequenceObservation) (ft : FtSequenceKind) : Verdict :=
  recordVerdict config i.lastDeliveryAt receivedAt rdt.kind ft (classifyStatus record.status)

/-- The members after the accounting section. -/
def accounted (config : Config D) (i : Impl D) (record : RawRecord) (receivedAt : TimePoint)
    (rdt : SequenceObservation) (ft : FtSequenceKind) : Impl D :=
  let receiveTimes := pruneRateWindow receivedAt (i.receiveTimes ++ [receivedAt])
  { i with
    receiveTimes
    lastRecordAt := receivedAt
    health := { countRecord i.health rdt ft (classifyStatus record.status)
        (i.verdict config record receivedAt rdt ft).rateLimited with
      state := .streaming
      receiveRateHz := receiveTimes.length
      lastRdtSequence := some record.rdtSequence
      lastFtSequence := some record.ftSequence
      lastStatus := record.status
      lastFtProgress := ftProgressName ft } }

/-- The section under `data_mutex_`; `none` is its `logic_error`, thrown before anything is
counted. -/
def account (config : Config D) (i : Impl D) (record : RawRecord) (receivedAt : TimePoint)
    (rdt : SequenceObservation) (ft : FtSequenceKind) :
    Option (Impl D × SensorConfiguration D × Verdict) :=
  match i.health.sensorConfiguration with
  | none => none
  | some configuration =>
    some (i.accounted config record receivedAt rdt ft, configuration,
      i.verdict config record receivedAt rdt ft)

end Impl

/-- The sample built from a record under a configuration. -/
def makeSample [Double D] (configuration : SensorConfiguration D) (record : RawRecord)
    (receivedAt : TimePoint) : Sample D :=
  let calibration := configuration.calibration
  let axis (divisor : D) (count : Int32) : D := Double.div (Double.ofInt count.toInt) divisor
  { rdtSequence := record.rdtSequence
    ftSequence := record.ftSequence
    status := record.status
    rawWrench := [record.fx, record.fy, record.fz, record.tx, record.ty, record.tz]
    force := [record.fx, record.fy, record.fz].map (axis calibration.countsPerForceUnit)
    torque := [record.tx, record.ty, record.tz].map (axis calibration.countsPerTorqueUnit)
    forceUnit := calibration.forceUnit
    torqueUnit := calibration.torqueUnit
    configurationRevision := configuration.revision
    receivedAt }

def finiteAxes [Double D] (sample : Sample D) : Bool :=
  sample.force.all Double.isfinite && sample.torque.all Double.isfinite

/-- What `handle_record` does next, after its accounting section. -/
inductive Disposition (D : Type)
  | finish (outcome : Option SessionResult)
  | deliver (sample : Sample D) (outcome : Option SessionResult)

/-- From the verdict to the callback: filtered records and records whose axes are not finite
are not delivered. -/
def dispose [Double D] (configuration : SensorConfiguration D) (record : RawRecord)
    (receivedAt : TimePoint) (verdict : Verdict) : Disposition D :=
  if !verdict.deliver then
    .finish verdict.outcome
  else
    let sample := makeSample configuration record receivedAt
    if !finiteAxes sample then .finish (some .sensorConfiguration)
    else .deliver sample verdict.outcome

def callbackFailureOutcome (config : Config D) (outcome : Option SessionResult) :
    Option SessionResult :=
  if outcome.isSome || config.recoveryPolicy = .reconnect then outcome else some .callback

/-- The part of the observation section under `record_mutex_` alone. -/
def Impl.observe (i : Impl D) (record : RawRecord) :
    Impl D × SequenceObservation × FtSequenceKind :=
  let rdt := i.rdtSequence.observe record.rdtSequence
  let ft := i.ftSequence.observe record.ftSequence
  ({ i with rdtSequence := rdt.1, ftSequence := ft.1 }, rdt.2, ft.2)

/-- The result of calling the callback: `none` is a normal return, otherwise the text of the
exception that `record_callback_error` stores. -/
abbrev CallbackResult := Option String

/-- The whole of `handle_record`: the state it leaves, its result, and the sample that was
delivered, if any. `none` is the `logic_error` of a missing configuration. -/
def handleRecord [Double D] (config : Config D) (i : Impl D) (record : RawRecord)
    (receivedAt : TimePoint) (callback : CallbackResult) :
    Option (Impl D × Option SessionResult × Option (Sample D)) :=
  let (i, rdt, ft) := i.observe record
  match i.account config record receivedAt rdt ft with
  | none => none
  | some (i, configuration, verdict) =>
    match dispose configuration record receivedAt verdict with
    | .finish outcome => some (i, outcome, none)
    | .deliver sample outcome =>
      match callback with
      | none =>
        some ({ i with lastDeliveryAt := receivedAt }.commitDelivery sample, outcome, some sample)
      | some message =>
        some (i.recordCallbackError message, callbackFailureOutcome config outcome, none)

end NetFT.Client
