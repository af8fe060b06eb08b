import Mathlib.Logic.Function.Basic
import NetFT.Client.Threads

/-! The steps of a client and its environment. An action names the thread that moves and the
environment's answer to the operation it performs: the result of discovery, of the socket
operations, of thread creation and of the sample callback. `Client.machine` is the resulting
machine; its runs are all interleavings of the worker with any number of application threads. -/

namespace NetFT.Client
open Detail Library

variable {D : Type}

/-- The environment's answer to the operation a step performs. -/
inductive Choice (D : Type)
  | go
  | discovered (configuration : SensorConfiguration D)
  | succeeds
  | fails (message : String)
  | expires
  | interrupted
  | datagram (bytes : List UInt8)

/-- A record that `handle_record` has accounted for. `converted` is the sample it was turned
into, if it passed all filters. -/
structure Processed (D : Type) where
  record : RawRecord
  receivedAt : TimePoint
  rdt : SequenceObservation
  ft : FtSequenceKind
  rateLimited : Bool
  converted : Option (Sample D)
  deriving DecidableEq

inductive Event (D : Type)
  | entered (t : Tid) (call : Call)
  | returned (t : Tid) (call : Call)
  | threw (t : Tid) (call : Call) (message : String)
  | waited (t : Tid) (captured : Nat) (result : Bool)
  | healthRead (t : Tid) (snapshot : HealthSnapshot D)
  | latestRead (t : Tid) (sample : Option (Sample D))
  | faultRead (t : Tid) (code : FaultCode)
  | created (n : Nat)
  | joined (n : Nat) (t : Tid)
  | sessionBegan (n : Nat)
  | discovered (n : Nat) (configuration : SensorConfiguration D)
  | discoveryFailed (n : Nat)
  | connected (n : Nat) (socket : Nat)
  | sent (t : Tid) (socket : Nat) (command : Command) (ok : Bool)
  | closed (socket : Nat)
  | processed (n : Nat) (r : Processed D)
  | copyFailed (n : Nat)
  | invoked (n : Nat) (sample : Sample D)
  | callbackError (n : Nat)
  | delivered (n : Nat) (sample : Sample D)
  | sessionEnded (n : Nat) (outcome : SessionOutcome)
  | published (n : Nat) (code : FaultCode)
  | runEnded (n : Nat)
  deriving DecidableEq

structure World (D : Type) where
  impl : Impl D := {}
  locks : Mutex → Option Tid := fun _ => none
  clock : TimePoint := 0
  nextSocket : Nat := 0
  created : Nat := 0
  api : Tid → ApiPc D := fun _ => .idle
  workers : Nat → Worker D := fun _ => {}

/-- What a step of an entry point does. -/
structure ApiNext (D : Type) where
  impl : Impl D
  pc : ApiPc D
  /-- A worker thread is created. -/
  spawn : Bool := false
  events : List (Event D) := []

/-- What a step of a worker does. -/
structure RunNext (D : Type) where
  impl : Impl D
  worker : Worker D
  /-- A descriptor is opened. -/
  opened : Bool := false
  events : List (Event D) := []

/-! ## Operations of the transport -/

namespace Impl

/-- `UdpTransport::send`: the text of the exception, if it throws, and the event of the attempt.
Without a socket there is nothing to attempt. -/
def send (i : Impl D) (t : Tid) (command : Command) :
    Choice D → Option (Option String × List (Event D))
  | c =>
    match i.transport.socket with
    | none => some (some "UDP socket is not connected", [])
    | some s =>
      match c with
      | .succeeds => some (none, [.sent t s command true])
      | .fails message => some (some message, [.sent t s command false])
      | _ => none

def connectTransport (i : Impl D) (s : Nat) : Impl D :=
  { i with transport := { socket := some s, shutdownRequested := false } }

def shutdownTransport (i : Impl D) : Impl D :=
  { i with transport := { i.transport with shutdownRequested := true } }

def closeTransport (i : Impl D) : Impl D :=
  { i with transport := { socket := none, shutdownRequested := true } }

/-- The descriptor that `connect` or `close` closes. -/
def closedEvents (i : Impl D) : List (Event D) :=
  match i.transport.socket with
  | none => []
  | some s => [.closed s]

def notifyFirst (i : Impl D) : Impl D := { i with firstSampleCv := [] }

def notifyLifecycle (i : Impl D) : Impl D := { i with lifecycleCv := [] }

/-- `active_worker_id_ == this_thread::get_id()` in a worker that has not exited. -/
def isActiveWorker (i : Impl D) (t : Tid) : Bool :=
  !i.workerExited && i.activeWorkerId = some t

end Impl

/-! ## `start` -/

def rollbackNext (i : Impl D) (t : Tid) (callback : Option Nat) (previous : Impl.Previous D) :
    RollbackPc → ApiNext D
  | .stopping =>
    { impl := { i with stopping := previous.stopping }
      pc := .start callback (.rollback .exited previous) }
  | .exited =>
    { impl := { i with workerExited := previous.workerExited, callback := previous.callback }
      pc := .start callback (.rollback .record previous) }
  | .record =>
    { impl := { i with lastDeliveryAt := previous.lastDelivery }
      pc := .start callback (.rollback .data previous) }
  | .data =>
    { impl := i.restoreData previous
      pc := .start callback (.rollback .latchReset previous) }
  | .latchReset =>
    { impl := { i with faultLatch := .none }
      pc := .start callback
        (.rollback (if previous.fault ≠ .none then .publish else .notifyFirst) previous) }
  | .publish =>
    { impl := i.publish previous.fault previous.health.lastError
      pc := .start callback (.rollback .notifyFirst previous) }
  | .notifyFirst =>
    { impl := i.notifyFirst
      pc := .start callback (.rollback .notifyLifecycle previous) }
  | .notifyLifecycle =>
    { impl := i.notifyLifecycle
      pc := .idle
      events := [.threw t (.start callback) "thread creation failed"] }

/-- The evaluation of `worker_exited_ || !faulted()`; the wait is over when it holds, and `start`
begins anew. -/
def startExitNext (i : Impl D) (callback : Option Nat) : ApiNext D :=
  { impl := i
    pc := .start callback (if i.workerExited || !i.faulted then .lock else .exitBlock) }

def startNext (w : World D) (t : Tid) (callback : Option Nat) (c : Choice D) :
    StartPc D → Option (ApiNext D)
  | .lock =>
    if w.impl.isActiveWorker t then
      some { impl := w.impl, pc := .idle
             events := [.threw t (.start callback) "client is already running"] }
    else
      some { impl := w.impl
             pc := .start callback (if w.impl.joining then .joiningBlock else .joinable) }
  | .joiningBlock =>
    some { impl := { w.impl with lifecycleCv := t :: w.impl.lifecycleCv }
           pc := .start callback .joiningAsleep }
  | .joiningAsleep =>
    if t ∈ w.impl.lifecycleCv then none
    else some { impl := w.impl
                pc := .start callback (if w.impl.joining then .joiningBlock else .joinable) }
  | .joinable =>
    match w.impl.worker with
    | none => some { impl := w.impl, pc := .start callback .save }
    | some n =>
      if w.impl.workerExited then
        some { impl := { w.impl with joining := true, worker := none }
               pc := .start callback (.join n) }
      else some { impl := w.impl, pc := .start callback .faulted }
  | .faulted =>
    if w.impl.faulted then some { impl := w.impl, pc := .start callback .exitEval }
    else some { impl := w.impl, pc := .idle
                events := [.threw t (.start callback) "client is already running"] }
  | .exitEval => some (startExitNext w.impl callback)
  | .exitBlock =>
    some { impl := { w.impl with lifecycleCv := t :: w.impl.lifecycleCv }
           pc := .start callback .exitAsleep }
  | .exitAsleep => if t ∈ w.impl.lifecycleCv then none else some (startExitNext w.impl callback)
  | .join n =>
    match (w.workers n).pc with
    | .exited => some { impl := w.impl, pc := .start callback (.reaped n), events := [.joined n t] }
    | _ => none
  | .reaped _ =>
    some { impl := { w.impl with activeWorkerId := none, joining := false }
           pc := .start callback .reapedNotify }
  | .reapedNotify => some { impl := w.impl.notifyLifecycle, pc := .start callback .lock }
  | .save =>
    some { impl := { w.impl with callback := none }
           pc := .start callback (.recordReset w.impl.saveFlags) }
  | .recordReset previous =>
    some { impl := { w.impl with lastDeliveryAt := 0 }
           pc := .start callback
             (.dataReset { previous with lastDelivery := w.impl.lastDeliveryAt }) }
  | .dataReset previous =>
    some { impl := w.impl.resetData
           pc := .start callback (.clearStopping (w.impl.saveData previous)) }
  | .clearStopping previous =>
    some { impl := { w.impl with stopping := false }
           pc := .start callback (.clearExited previous) }
  | .clearExited previous =>
    some { impl := { w.impl with workerExited := false }
           pc := .start callback (.create previous) }
  | .create previous =>
    match c with
    | .succeeds =>
      some { impl := { w.impl with callback, worker := some w.created }
             pc := .start callback .setActive
             spawn := true
             events := [.created w.created] }
    | .fails _ =>
      some { impl := { w.impl with callback }
             pc := .start callback (.rollback .stopping previous) }
    | _ => none
  | .setActive =>
    some { impl := { w.impl with activeWorkerId := w.impl.worker.map .worker }
           pc := .start callback .notifyFirst }
  | .notifyFirst => some { impl := w.impl.notifyFirst, pc := .start callback .notifyLifecycle }
  | .notifyLifecycle =>
    some { impl := w.impl.notifyLifecycle, pc := .idle, events := [.returned t (.start callback)] }
  | .rollback p previous => some (rollbackNext w.impl t callback previous p)

/-! ## `stop` -/

/-- The tail of the first section of `stop`, after the transport was shut down. -/
def stopDecideNext (i : Impl D) (t : Tid) : ApiNext D :=
  if i.isActiveWorker t then
    { impl := i, pc := .idle, events := [.returned t .stop] }
  else if i.joining then
    { impl := i, pc := .stop .joiningBlock }
  else
    match i.worker with
    | none => { impl := i, pc := .stop .idle }
    | some n => { impl := { i with joining := true, worker := none }, pc := .stop (.join n) }

def stopNext (w : World D) (t : Tid) (c : Choice D) : StopPc → Option (ApiNext D)
  | .lock => some { impl := { w.impl with stopping := true }, pc := .stop .notifyFirst }
  | .notifyFirst => some { impl := w.impl.notifyFirst, pc := .stop .notifyLifecycle }
  | .notifyLifecycle => some { impl := w.impl.notifyLifecycle, pc := .stop .command }
  | .command =>
    if w.impl.sessionStarted then
      match w.impl.send t .stopStreaming c with
      | some (_, events) =>
        some { impl := { w.impl with sessionStarted := false }, pc := .stop .shutdown, events }
      | none => none
    else some { impl := w.impl, pc := .stop .shutdown }
  | .shutdown => some { impl := w.impl.shutdownTransport, pc := .stop .selfCheck }
  | .selfCheck => some (stopDecideNext w.impl t)
  | .joiningBlock =>
    some { impl := { w.impl with lifecycleCv := t :: w.impl.lifecycleCv }
           pc := .stop .joiningAsleep }
  | .joiningAsleep =>
    if t ∈ w.impl.lifecycleCv then none
    else some { impl := w.impl, pc := .stop (if w.impl.joining then .joiningBlock else .lock) }
  | .idle =>
    if w.impl.faulted then some { impl := w.impl, pc := .idle, events := [.returned t .stop] }
    else some { impl := w.impl, pc := .stop .idleState }
  | .idleState =>
    some { impl := w.impl.setState .stopped, pc := .idle, events := [.returned t .stop] }
  | .join n =>
    match (w.workers n).pc with
    | .exited => some { impl := w.impl, pc := .stop (.joined n), events := [.joined n t] }
    | _ => none
  | .joined n =>
    some { impl := w.impl, pc := .stop (if w.impl.faulted then .clear n else .joinedState n) }
  | .joinedState n => some { impl := w.impl.setState .stopped, pc := .stop (.clear n) }
  | .clear _ =>
    some { impl := { w.impl with activeWorkerId := none, joining := false }
           pc := .stop .finalNotifyLifecycle }
  | .finalNotifyLifecycle =>
    some { impl := w.impl.notifyLifecycle, pc := .stop .finalNotifyFirst }
  | .finalNotifyFirst =>
    some { impl := w.impl.notifyFirst, pc := .idle, events := [.returned t .stop] }

/-! ## `bias`, `wait_for_first_sample` and the queries -/

def biasNext (w : World D) (t : Tid) (c : Choice D) : BiasPc → Option (ApiNext D)
  | .lock => some { impl := w.impl, pc := .bias .record }
  | .record => some { impl := w.impl, pc := .bias .check }
  | .check =>
    if w.impl.biasAllowed then some { impl := w.impl, pc := .bias .bias }
    else some { impl := w.impl, pc := .idle, events := [.threw t .bias "client is not streaming"] }
  | .bias =>
    match w.impl.send t .setSoftwareBias c with
    | some (none, events) => some { impl := w.impl, pc := .bias .restart, events }
    | some (some message, events) =>
      some { impl := w.impl, pc := .idle, events := events ++ [.threw t .bias message] }
    | none => none
  | .restart =>
    match w.impl.send t .startRealtime c with
    | some (none, events) => some { impl := w.impl, pc := .bias .reset, events }
    | some (some message, events) =>
      some { impl := w.impl, pc := .idle, events := events ++ [.threw t .bias message] }
    | none => none
  | .reset =>
    some { impl := { w.impl with rdtSequence := w.impl.rdtSequence.reset }, pc := .idle
           events := [.returned t .bias] }

def waitNext (w : World D) (t : Tid) (c : Choice D) : WaitPc → Option (ApiNext D)
  | .enter =>
    if w.impl.generation = 0 then
      some { impl := w.impl, pc := .idle, events := [.waited t 0 false] }
    else if w.impl.waitOver w.impl.generation then
      some { impl := w.impl, pc := .idle
             events := [.waited t w.impl.generation (w.impl.waitResult w.impl.generation)] }
    else some { impl := w.impl, pc := .wait (.block w.impl.generation) }
  | .block captured =>
    some { impl := { w.impl with firstSampleCv := t :: w.impl.firstSampleCv }
           pc := .wait (.asleep captured) }
  | .asleep captured =>
    match c with
    -- the deadline has passed: the predicate is evaluated once more and the wait is over
    | .expires =>
      some { impl := { w.impl with firstSampleCv := w.impl.firstSampleCv.filter (· ≠ t) }
             pc := .idle, events := [.waited t captured (w.impl.waitResult captured)] }
    | _ =>
      if t ∈ w.impl.firstSampleCv then none
      else if w.impl.waitOver captured then
        some { impl := w.impl, pc := .idle
               events := [.waited t captured (w.impl.waitResult captured)] }
      else some { impl := w.impl, pc := .wait (.block captured) }

def queryNext (w : World D) (t : Tid) : Query → ApiNext D
  | .health =>
    { impl := (w.impl.takeHealth w.clock).1, pc := .idle
      events := [.healthRead t (w.impl.takeHealth w.clock).2] }
  | .latestSample => { impl := w.impl, pc := .idle, events := [.latestRead t w.impl.latest] }
  | .faulted => { impl := w.impl, pc := .idle, events := [.faultRead t w.impl.faultLatch] }
  | .faultCode => { impl := w.impl, pc := .idle, events := [.faultRead t w.impl.faultLatch] }

def apiNext (w : World D) (t : Tid) (c : Choice D) : ApiPc D → Option (ApiNext D)
  | .idle => none
  | .start callback p => startNext w t callback c p
  | .stop p => stopNext w t c p
  | .bias p => biasNext w t c p
  | .wait p => waitNext w t c p
  | .query q => some (queryNext w t q)

/-! ## `handle_record` -/

/-- The message of the `invalid_argument` that `checked_deadline` throws. -/
def deadlineMessage : String := "deadline is outside the supported steady-clock range"

/-- `receive_session` returns. -/
def endSession (i : Impl D) (worker : Worker D) (n : Nat) (result : SessionResult)
    (message : String) (events : List (Event D) := []) : RunNext D :=
  let outcome := { result, message, receivedValidRecord := worker.receivedValidRecord }
  { impl := i
    worker := { worker with pc := .close (.session outcome) }
    events := events ++ [.sessionEnded n outcome] }

/-- `handle_record` returns to the receive loop. -/
def afterRecord (i : Impl D) (worker : Worker D) (n : Nat) (outcome : Option SessionResult)
    (events : List (Event D) := []) : RunNext D :=
  match outcome with
  | some result => endSession i worker n result "" events
  | none => { impl := i, worker := { worker with pc := .session .loop }, events }

def recordNext [Double D] (config : Config D) (w : World D) (n : Nat) (c : Choice D)
    (worker : Worker D) : RecordPc D → Option (RunNext D)
  | .observe record receivedAt =>
    let (i, rdt, ft) := w.impl.observe record
    some { impl := i
           worker := { worker with pc := .session (.record (.account record receivedAt rdt ft)) } }
  | .account record receivedAt rdt ft =>
    match w.impl.account config record receivedAt rdt ft with
    | none =>
      some { impl := w.impl
             worker := { worker with
               pc := .raised "sensor configuration is unavailable while streaming" } }
    | some (i, configuration, verdict) =>
      let event := .processed n {
        record, receivedAt, rdt, ft
        rateLimited := verdict.rateLimited
        converted :=
          if verdict.deliver then some (makeSample configuration record receivedAt) else none }
      match dispose configuration record receivedAt verdict with
      | .finish outcome => some (afterRecord i worker n outcome [event])
      | .deliver sample outcome =>
        some { impl := i
               worker := { worker with pc := .session (.record (.copyCallback sample outcome)) }
               events := [event] }
  | .copyCallback sample outcome =>
    match w.impl.callback with
    | none =>
      some { impl := w.impl
             worker := { worker with pc := .session (.record (.commit sample outcome)) } }
    | some _ =>
      match c with
      | .succeeds =>
        some { impl := w.impl
               worker := { worker with pc := .session (.record (.inCallback sample outcome)) }
               events := [.invoked n sample] }
      | .fails message =>
        some { impl := w.impl
               worker := { worker with
                 pc := .session (.record (.callbackFailed message outcome)) }
               events := [.copyFailed n] }
      | _ => none
  | .inCallback sample outcome =>
    match w.api (.worker n), c with
    | .idle, .succeeds =>
      some { impl := w.impl
             worker := { worker with pc := .session (.record (.commit sample outcome)) } }
    | .idle, .fails message =>
      some { impl := w.impl
             worker := { worker with pc := .session (.record (.callbackFailed message outcome)) } }
    | _, _ => none
  | .callbackFailed message outcome =>
    some (afterRecord (w.impl.recordCallbackError message) worker n
      (callbackFailureOutcome config outcome) [.callbackError n])
  | .commit sample outcome =>
    some { impl := { w.impl with lastDeliveryAt := sample.receivedAt }
           worker := { worker with pc := .session (.record (.commitData sample outcome)) } }
  | .commitData sample outcome =>
    some { impl := w.impl.commitDelivery sample
           worker := { worker with pc := .session (.record (.notifyFirst outcome)) }
           events := [.delivered n sample] }
  | .notifyFirst outcome =>
    some { impl := w.impl.notifyFirst
           worker := { worker with pc := .session (.record (.notifyLifecycle outcome)) } }
  | .notifyLifecycle outcome => some (afterRecord w.impl.notifyLifecycle worker n outcome)

/-! ## `receive_session` -/

def sessionNext [DecidableEq D] [Double D] (config : Config D) (w : World D) (n : Nat)
    (c : Choice D) (worker : Worker D) : SessionPc D → Option (RunNext D)
  | .connecting =>
    some { impl := w.impl.setState .connecting
           worker := { worker with pc := .session .checkBeforeDiscovery } }
  | .checkBeforeDiscovery =>
    if w.impl.stopping then some (endSession w.impl worker n .stopped "")
    else some { impl := w.impl, worker := { worker with pc := .session .discover } }
  | .discover =>
    match config.calibrationOverride with
    | some calibration =>
      let configuration := { productName := "", calibration, source := .override, revision := 1 }
      some { impl := w.impl
             worker := { worker with pc := .session (.apply configuration) }
             events := [.discovered n configuration] }
    | none =>
      match c with
      | .discovered configuration =>
        some { impl := w.impl
               worker := { worker with pc := .session (.apply configuration) }
               events := [.discovered n configuration] }
      | .fails message =>
        some { impl := w.impl
               worker := { worker with pc := .session (.discoverFailed message) }
               events := [.discoveryFailed n] }
      | _ => none
  | .discoverFailed message =>
    some (endSession w.impl worker n
      (if w.impl.stopping then .stopped else .sensorConfiguration) message)
  | .apply configuration =>
    some { impl := w.impl.applyConfiguration configuration
           worker := { worker with pc := .session .checkBeforeConnect } }
  | .checkBeforeConnect =>
    if w.impl.stopping then some (endSession w.impl worker n .stopped "")
    else some { impl := w.impl, worker := { worker with pc := .session .connect } }
  | .connect =>
    match c with
    | .succeeds =>
      some { impl := w.impl.connectTransport w.nextSocket
             worker := { worker with pc := .session .command }
             opened := true
             events := w.impl.closedEvents ++ [.connected n w.nextSocket] }
    | .fails message =>
      some { impl := w.impl, worker := { worker with pc := .session (.socketFailed message) } }
    | _ => none
  | .command =>
    if w.impl.stopping then some (endSession w.impl worker n .stopped "")
    else some { impl := w.impl, worker := { worker with pc := .session .sendStart } }
  | .sendStart =>
    match w.impl.send (.worker n) .startRealtime c with
    | some (none, events) =>
      some { impl := { w.impl with sessionStarted := true }
             worker := { worker with pc := .session .trackerReset }
             events }
    | some (some message, events) =>
      some { impl := w.impl, worker := { worker with pc := .session (.socketFailed message) }
             events }
    | none => none
  | .socketFailed message =>
    some (endSession w.impl worker n (if w.impl.stopping then .stopped else .socket) message)
  | .trackerReset =>
    some { impl := { w.impl with
             rdtSequence := w.impl.rdtSequence.reset
             ftSequence := w.impl.ftSequence.beginSession }
           worker := { worker with pc := .session .firstDeadline } }
  | .firstDeadline =>
    match checkedDeadline w.clock config.receiveTimeout with
    | none => some { impl := w.impl, worker := { worker with pc := .raised deadlineMessage } }
    | some deadline =>
      some { impl := w.impl, worker := { worker with pc := .session .loop, deadline } }
  | .loop =>
    if w.impl.stopping then some (endSession w.impl worker n .stopped "")
    else some { impl := w.impl, worker := { worker with pc := .session .now } }
  | .now =>
    if w.clock ≥ worker.deadline then
      some { impl := w.impl, worker := { worker with pc := .session .timedOut } }
    else
      some { impl := w.impl
             worker := { worker with pc := .session (.receive (worker.deadline - w.clock)) } }
  | .timedOut =>
    if w.impl.stopping then some (endSession w.impl worker n .stopped "")
    else some (endSession w.impl.countTimeout worker n .timeout "")
  | .receive remaining =>
    if w.impl.transport.socket = none then
      some { impl := w.impl
             worker := { worker with
               pc := .session (.socketFailed "UDP socket is not connected") } }
    else if w.impl.transport.shutdownRequested then
      some { impl := w.impl, worker := { worker with pc := .session (.received []) } }
    else if w.clock + remaining > maxTicks then
      some { impl := w.impl
             worker := { worker with pc := .session (.socketFailed deadlineMessage) } }
    else
      some { impl := w.impl, worker := { worker with pc := .session (.poll (w.clock + remaining)) } }
  | .poll pollDeadline =>
    match c with
    | .succeeds => some { impl := w.impl, worker := { worker with pc := .session .pollCheck } }
    | .expires => some { impl := w.impl, worker := { worker with pc := .session (.received []) } }
    | .interrupted =>
      if w.clock ≥ pollDeadline then
        some { impl := w.impl, worker := { worker with pc := .session (.received []) } }
      else
        some { impl := w.impl
               worker := { worker with pc := .session (.poll pollDeadline) } }
    | .fails message =>
      some { impl := w.impl, worker := { worker with pc := .session (.socketFailed message) } }
    | _ => none
  | .pollCheck =>
    some { impl := w.impl
           worker := { worker with
             pc := .session (if w.impl.transport.shutdownRequested then .received [] else .recv) } }
  | .recv =>
    match c with
    | .datagram bytes =>
      some { impl := w.impl, worker := { worker with pc := .session (.received bytes) } }
    | .interrupted =>
      some { impl := w.impl, worker := { worker with pc := .session (.received []) } }
    | .fails message =>
      some { impl := w.impl, worker := { worker with pc := .session (.socketFailed message) } }
    | _ => none
  | .received datagram =>
    if w.impl.stopping then some (endSession w.impl worker n .stopped "")
    else if datagram = [] then
      some { impl := w.impl, worker := { worker with pc := .session .timedOut } }
    else
      match decodeRecord datagram with
      | none => some { impl := w.impl, worker := { worker with pc := .session .malformed } }
      | some record =>
        some { impl := w.impl, worker := { worker with pc := .session (.stamp record) } }
  | .malformed =>
    let i := w.impl.countMalformed
    if i.consecutiveMalformed ≥ kMalformedStormThreshold then
      some (endSession i worker n .malformedStorm "")
    else some { impl := i, worker := { worker with pc := .session .loop } }
  | .stamp record =>
    some { impl := w.impl, worker := { worker with pc := .session (.valid record w.clock) } }
  | .valid record receivedAt =>
    let i := { w.impl with consecutiveMalformed := 0 }
    match checkedDeadline receivedAt config.receiveTimeout with
    | none =>
      some { impl := i
             worker := { worker with pc := .raised deadlineMessage, receivedValidRecord := true } }
    | some deadline =>
      some { impl := i
             worker := { worker with
               pc := .session (.record (.observe record receivedAt))
               receivedValidRecord := true
               deadline } }
  | .record p => recordNext config w n c worker p

/-! ## `run` -/

/-- After the reconnect delay. -/
def nextSession (config : Config D) (i : Impl D) (worker : Worker D) : RunNext D :=
  { impl := i
    worker := { worker with
      pc := .top, backoff := min (worker.backoff * 2) config.reconnectMaxDelay } }

def SessionOutcome.text (outcome : SessionOutcome) : String :=
  if outcome.message = "" then messageFor outcome.result else outcome.message

def runNext [DecidableEq D] [Double D] (config : Config D) (w : World D) (n : Nat) (c : Choice D)
    (worker : Worker D) : RunPc D → Option (RunNext D)
  | .unborn => none
  | .top =>
    if w.impl.stopping || w.impl.faulted then
      some { impl := w.impl, worker := { worker with pc := .close .finish } }
    else
      some { impl := w.impl
             worker := { worker with pc := .session .connecting, receivedValidRecord := false }
             events := [.sessionBegan n] }
  | .session p => sessionNext config w n c worker p
  | .close context =>
    if w.impl.sessionStarted then
      match w.impl.send (.worker n) .stopStreaming c with
      | some (_, events) =>
        some { impl := { w.impl with sessionStarted := false }
               worker := { worker with pc := .closeTransport context }
               events }
      | none => none
    else some { impl := w.impl, worker := { worker with pc := .closeTransport context } }
  | .closeTransport context =>
    some { impl := w.impl.closeTransport
           worker := { worker with
             pc := match context with
               | .session outcome => .decide outcome
               | .finish => .storeExited }
           events := w.impl.closedEvents }
  | .decide outcome =>
    if outcome.result ≠ .stopped ∧ config.recoveryPolicy = .failStop then
      some { impl := w.impl
             worker := { worker with pc := .publish (faultFor outcome.result) outcome.text } }
    else if outcome.result = .stopped ∨ w.impl.stopping then
      some { impl := w.impl, worker := { worker with pc := .close .finish } }
    else
      some { impl := w.impl
             worker := { worker with
               pc := .enterBackoff outcome.text
               backoff := if outcome.receivedValidRecord then config.reconnectInitialDelay
                 else worker.backoff } }
  | .enterBackoff message =>
    some { impl := w.impl.enterBackoff message, worker := { worker with pc := .backoffWait } }
  | .backoffWait =>
    match checkedDeadline w.clock worker.backoff with
    | none => some { impl := w.impl, worker := { worker with pc := .raised deadlineMessage } }
    | some deadline =>
      if w.impl.stopping then some (nextSession config w.impl worker)
      else some { impl := w.impl, worker := { worker with pc := .backoffBlock deadline } }
  | .backoffBlock deadline =>
    some { impl := { w.impl with firstSampleCv := .worker n :: w.impl.firstSampleCv }
           worker := { worker with pc := .backoffAsleep deadline } }
  | .backoffAsleep deadline =>
    if .worker n ∈ w.impl.firstSampleCv ∧ w.clock < deadline then none
    else
      let i := { w.impl with firstSampleCv := w.impl.firstSampleCv.filter (· ≠ .worker n) }
      if i.stopping || w.clock ≥ deadline then some (nextSession config i worker)
      else some { impl := i, worker := { worker with pc := .backoffBlock deadline } }
  | .raised message =>
    some { impl := w.impl
           worker := { worker with
             pc := if w.impl.stopping then .close .finish else .publish .socket message } }
  | .publish code message =>
    some { impl := w.impl.publish code message
           worker := { worker with pc := .publishNotifyFirst }
           events := if w.impl.faulted then [] else [.published n code] }
  | .publishNotifyFirst =>
    some { impl := w.impl.notifyFirst, worker := { worker with pc := .publishNotifyLifecycle } }
  | .publishNotifyLifecycle =>
    some { impl := w.impl.notifyLifecycle, worker := { worker with pc := .close .finish } }
  | .storeExited =>
    some { impl := { w.impl with workerExited := true }
           worker := { worker with pc := .finalFaulted } }
  | .finalFaulted =>
    some { impl := w.impl
           worker := { worker with
             pc := if w.impl.faulted then .finalNotifyFirst else .finalState } }
  | .finalState =>
    some { impl := w.impl.setState .stopped, worker := { worker with pc := .finalNotifyFirst } }
  | .finalNotifyFirst =>
    some { impl := w.impl.notifyFirst, worker := { worker with pc := .finalNotifyLifecycle } }
  | .finalNotifyLifecycle =>
    some { impl := w.impl.notifyLifecycle, worker := { worker with pc := .exited }
           events := [.runEnded n] }
  | .exited => none

/-! ## The machine -/

inductive Action (D : Type)
  /-- Time passes. -/
  | tick (ticks : Nat)
  /-- A thread enters an entry point. -/
  | call (t : Tid) (call : Call)
  /-- A thread makes its next step in the entry point it executes. -/
  | api (t : Tid) (choice : Choice D)
  /-- A worker makes its next step. -/
  | run (n : Nat) (choice : Choice D)
  /-- A thread that waits on a condition variable is woken spuriously. -/
  | spurious (t : Tid)

/-- The mutexes after a thread moved from a position where it held `before` to one where it
holds `after`. -/
def relock (locks : Mutex → Option Tid) (t : Tid) (before after : List Mutex) :
    Mutex → Option Tid :=
  fun m => if m ∈ after then some t else if m ∈ before then none else locks m

/-- Every mutex of `wanted` is held already or free. -/
def canTake (locks : Mutex → Option Tid) (held wanted : List Mutex) : Bool :=
  wanted.all fun m => m ∈ held || (locks m).isNone

namespace World

/-- The sample callback is executing on worker `n`. -/
def inCallback (w : World D) (n : Nat) : Bool :=
  match (w.workers n).pc with
  | .session (.record (.inCallback ..)) => true
  | _ => false

/-- Application threads call at any time, a worker only from inside its callback. -/
def mayCall (w : World D) : Tid → Bool
  | .client _ => true
  | .worker n => w.inCallback n

def applyApi (config : Config D) (w : World D) (t : Tid) (r : ApiNext D) : World D :=
  { w with
    impl := r.impl
    locks := relock w.locks t (w.api t).held r.pc.held
    api := Function.update w.api t r.pc
    created := if r.spawn then w.created + 1 else w.created
    workers :=
      if r.spawn then
        Function.update w.workers w.created
          { pc := .top, backoff := config.reconnectInitialDelay }
      else w.workers }

def applyRun (w : World D) (n : Nat) (r : RunNext D) : World D :=
  { w with
    impl := r.impl
    locks := relock w.locks (.worker n) (w.workers n).pc.held r.worker.pc.held
    workers := Function.update w.workers n r.worker
    nextSocket := if r.opened then w.nextSocket + 1 else w.nextSocket }

def elapse (w : World D) (ticks : Nat) : World D := { w with clock := w.clock + ticks }

def enter (w : World D) (t : Tid) (call : Call) : World D :=
  { w with api := Function.update w.api t call.entry }

def wakeSpuriously (w : World D) (t : Tid) : World D :=
  { w with impl := { w.impl with
      lifecycleCv := w.impl.lifecycleCv.filter (· ≠ t)
      firstSampleCv := w.impl.firstSampleCv.filter (· ≠ t) } }

section
variable (w : World D) (config : Config D) (t : Tid) (n ticks : Nat) (call : Call)
  (r : ApiNext D) (q : RunNext D)

@[simp] theorem elapse_impl : (w.elapse ticks).impl = w.impl := rfl
@[simp] theorem elapse_locks : (w.elapse ticks).locks = w.locks := rfl
@[simp] theorem elapse_api : (w.elapse ticks).api = w.api := rfl
@[simp] theorem elapse_workers : (w.elapse ticks).workers = w.workers := rfl
@[simp] theorem elapse_created : (w.elapse ticks).created = w.created := rfl
@[simp] theorem elapse_nextSocket : (w.elapse ticks).nextSocket = w.nextSocket := rfl

@[simp] theorem enter_impl : (w.enter t call).impl = w.impl := rfl
@[simp] theorem enter_locks : (w.enter t call).locks = w.locks := rfl
@[simp] theorem enter_api : (w.enter t call).api = Function.update w.api t call.entry := rfl
@[simp] theorem enter_workers : (w.enter t call).workers = w.workers := rfl
@[simp] theorem enter_created : (w.enter t call).created = w.created := rfl
@[simp] theorem enter_nextSocket : (w.enter t call).nextSocket = w.nextSocket := rfl

@[simp] theorem wakeSpuriously_locks : (w.wakeSpuriously t).locks = w.locks := rfl
@[simp] theorem wakeSpuriously_api : (w.wakeSpuriously t).api = w.api := rfl
@[simp] theorem wakeSpuriously_workers : (w.wakeSpuriously t).workers = w.workers := rfl
@[simp] theorem wakeSpuriously_created : (w.wakeSpuriously t).created = w.created := rfl
@[simp] theorem wakeSpuriously_nextSocket : (w.wakeSpuriously t).nextSocket = w.nextSocket := rfl

@[simp] theorem applyApi_impl : (w.applyApi config t r).impl = r.impl := rfl
@[simp] theorem applyApi_api : (w.applyApi config t r).api = Function.update w.api t r.pc := rfl
@[simp] theorem applyApi_clock : (w.applyApi config t r).clock = w.clock := rfl
@[simp] theorem applyApi_nextSocket : (w.applyApi config t r).nextSocket = w.nextSocket := rfl
@[simp] theorem applyApi_locks :
    (w.applyApi config t r).locks = relock w.locks t (w.api t).held r.pc.held := rfl

@[simp] theorem applyRun_impl : (w.applyRun n q).impl = q.impl := rfl
@[simp] theorem applyRun_api : (w.applyRun n q).api = w.api := rfl
@[simp] theorem applyRun_clock : (w.applyRun n q).clock = w.clock := rfl
@[simp] theorem applyRun_created : (w.applyRun n q).created = w.created := rfl
@[simp] theorem applyRun_workers :
    (w.applyRun n q).workers = Function.update w.workers n q.worker := rfl
@[simp] theorem applyRun_locks :
    (w.applyRun n q).locks =
      relock w.locks (.worker n) (w.workers n).pc.held q.worker.pc.held := rfl

end

end World

def step [DecidableEq D] [Double D] (config : Config D) (w : World D) :
    Action D → Option (World D × List (Event D))
  | .tick ticks => some (w.elapse ticks, [])
  | .call t call =>
    match w.api t with
    | .idle =>
      if w.mayCall t then some (w.enter t call, [.entered t call]) else none
    | _ => none
  | .api t c =>
    match apiNext w t c (w.api t) with
    | none => none
    | some r =>
      if canTake w.locks (w.api t).held ((w.api t).needs ++ r.pc.held) then
        some (w.applyApi config t r, r.events)
      else none
  | .run n c =>
    match runNext config w n c (w.workers n) (w.workers n).pc with
    | none => none
    | some r =>
      if canTake w.locks (w.workers n).pc.held ((w.workers n).pc.needs ++ r.worker.pc.held) then
        some (w.applyRun n r, r.events)
      else none
  | .spurious t => some (w.wakeSpuriously t, [])

/-- The client with the given configuration. -/
def machine [DecidableEq D] [Double D] (config : Config D) :
    Machine (World D) (Action D) (Event D) where
  step := step config

/-- A client that was just constructed, at any clock value. -/
def World.initial (clock : TimePoint) : World D := { clock }

/-- `Reachable config w l`: the client can be in state `w` after a history with events `l`. -/
def Reachable [DecidableEq D] [Double D] (config : Config D) (w : World D)
    (l : List (Event D)) : Prop :=
  ∃ clock, (machine config).Run (World.initial clock) l w

end NetFT.Client
