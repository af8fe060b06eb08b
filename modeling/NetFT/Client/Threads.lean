import NetFT.Client.Record
import NetFT.Library.Machine

/-! The threads of a client: where each one stands in the entry point it executes, and which
mutexes it holds there. A position names the next step of the thread. One step makes at most
one access to shared members that is not protected by a mutex the thread holds or takes in that
step; a section that needs only its own mutex is one step, and a section that takes a further
mutex is cut at that place. -/

namespace NetFT.Client
open Detail

inductive Mutex
  | lifecycle | command | record | data
  deriving DecidableEq, Repr

/-! ## The entry points -/

/-- The `catch` block of `start`. -/
inductive RollbackPc
  | stopping | exited | record | data | latchReset | publish | notifyFirst | notifyLifecycle
  deriving DecidableEq, Repr

inductive StartPc (D : Type)
  | lock
  /-- Between the evaluation of `!joining_` and the wait for it. -/
  | joiningBlock
  | joiningAsleep
  | joinable
  | faulted
  | exitEval
  /-- Between the evaluation of `worker_exited_ || !faulted()` and the wait for it. -/
  | exitBlock
  | exitAsleep
  | join (n : Nat)
  | reaped (n : Nat)
  | reapedNotify
  | save
  | recordReset (previous : Impl.Previous D)
  | dataReset (previous : Impl.Previous D)
  | clearStopping (previous : Impl.Previous D)
  | clearExited (previous : Impl.Previous D)
  | create (previous : Impl.Previous D)
  | setActive
  | notifyFirst
  | notifyLifecycle
  | rollback (p : RollbackPc) (previous : Impl.Previous D)

inductive StopPc
  | lock
  | notifyFirst
  | notifyLifecycle
  | command
  | shutdown
  | selfCheck
  | joiningBlock
  | joiningAsleep
  | idle
  | idleState
  | join (n : Nat)
  | joined (n : Nat)
  | joinedState (n : Nat)
  | clear (n : Nat)
  | finalNotifyLifecycle
  | finalNotifyFirst
  deriving DecidableEq, Repr

inductive BiasPc
  | lock | record | check | bias | restart | reset
  deriving DecidableEq, Repr

inductive WaitPc
  | enter
  | block (captured : Nat)
  | asleep (captured : Nat)
  deriving DecidableEq, Repr

inductive Query
  | health | latestSample | faulted | faultCode
  deriving DecidableEq, Repr

/-- The entry points, with their arguments. -/
inductive Call
  | start (callback : Option Nat)
  | stop
  | bias
  | waitForFirstSample
  | query (q : Query)
  deriving DecidableEq, Repr

/-- The entry point a thread is executing; `idle` outside of all of them. -/
inductive ApiPc (D : Type)
  | idle
  | start (callback : Option Nat) (p : StartPc D)
  | stop (p : StopPc)
  | bias (p : BiasPc)
  | wait (p : WaitPc)
  | query (q : Query)

variable {D : Type}

def Call.entry : Call → ApiPc D
  | .start callback => .start callback .lock
  | .stop => .stop .lock
  | .bias => .bias .lock
  | .waitForFirstSample => .wait .enter
  | .query q => .query q

/-! ## The worker -/

/-- `handle_record`. -/
inductive RecordPc (D : Type)
  | observe (record : RawRecord) (receivedAt : TimePoint)
  | account (record : RawRecord) (receivedAt : TimePoint) (rdt : SequenceObservation)
    (ft : FtSequenceKind)
  | copyCallback (sample : Sample D) (outcome : Option SessionResult)
  | inCallback (sample : Sample D) (outcome : Option SessionResult)
  | callbackFailed (message : String) (outcome : Option SessionResult)
  | commit (sample : Sample D) (outcome : Option SessionResult)
  | commitData (sample : Sample D) (outcome : Option SessionResult)
  | notifyFirst (outcome : Option SessionResult)
  | notifyLifecycle (outcome : Option SessionResult)

/-- `receive_session`. -/
inductive SessionPc (D : Type)
  | connecting
  | checkBeforeDiscovery
  | discover
  | discoverFailed (message : String)
  | apply (configuration : SensorConfiguration D)
  | checkBeforeConnect
  | connect
  | command
  | sendStart
  | socketFailed (message : String)
  | trackerReset
  | firstDeadline
  | loop
  | now
  | timedOut
  | receive (remaining : Nat)
  | poll (pollDeadline : TimePoint)
  | pollCheck
  | recv
  | received (datagram : List UInt8)
  | malformed
  | stamp (record : RawRecord)
  | valid (record : RawRecord) (receivedAt : TimePoint)
  | record (p : RecordPc D)

/-- Which of its two callers `close_session` returns to. -/
inductive CloseContext
  | session (outcome : SessionOutcome)
  | finish
  deriving DecidableEq, Repr

/-- `run`, `close_session`, `set_fault` and `finish_session`. -/
inductive RunPc (D : Type)
  | unborn
  | top
  | session (p : SessionPc D)
  | close (c : CloseContext)
  | closeTransport (c : CloseContext)
  | decide (outcome : SessionOutcome)
  | enterBackoff (message : String)
  | backoffWait
  /-- Between the evaluation of `stopping_` and the wait for it. -/
  | backoffBlock (deadline : TimePoint)
  | backoffAsleep (deadline : TimePoint)
  | raised (message : String)
  | publish (code : FaultCode) (message : String)
  | publishNotifyFirst
  | publishNotifyLifecycle
  | storeExited
  | finalFaulted
  | finalState
  | finalNotifyFirst
  | finalNotifyLifecycle
  | exited

/-- A worker thread: its position and the locals of `run` and `receive_session`. -/
structure Worker (D : Type) where
  pc : RunPc D := .unborn
  backoff : Rat := 0
  deadline : TimePoint := 0
  receivedValidRecord : Bool := false

/-! ## Mutexes held and taken -/

def RollbackPc.needs : RollbackPc → List Mutex
  | .record => [.record]
  | .data | .publish => [.data]
  | _ => []

def StartPc.held : StartPc D → List Mutex
  | .lock | .joiningAsleep | .exitAsleep | .join _ | .reaped _ | .reapedNotify => []
  | _ => [.lifecycle]

def StartPc.needs : StartPc D → List Mutex
  | .lock | .joiningAsleep | .exitAsleep | .reaped _ => [.lifecycle]
  | .recordReset _ => [.record]
  | .dataReset _ => [.data]
  | .rollback p _ => p.needs
  | _ => []

def StopPc.held : StopPc → List Mutex
  | .lock | .joiningAsleep | .join _ | .joined _ => []
  | .finalNotifyLifecycle | .finalNotifyFirst => []
  | .shutdown => [.lifecycle, .command]
  | _ => [.lifecycle]

def StopPc.needs : StopPc → List Mutex
  | .lock | .joiningAsleep | .joined _ => [.lifecycle]
  | .command => [.command]
  | .idleState | .joinedState _ => [.data]
  | _ => []

def BiasPc.held : BiasPc → List Mutex
  | .lock => []
  | .record => [.command]
  | _ => [.command, .record]

def BiasPc.needs : BiasPc → List Mutex
  | .lock => [.command]
  | .record => [.record]
  | .check => [.data]
  | _ => []

def WaitPc.held : WaitPc → List Mutex
  | .block _ => [.data]
  | _ => []

def WaitPc.needs : WaitPc → List Mutex
  | .block _ => []
  | _ => [.data]

def Query.needs : Query → List Mutex
  | .health | .latestSample => [.data]
  | _ => []

def ApiPc.held : ApiPc D → List Mutex
  | .start _ p => p.held
  | .stop p => p.held
  | .bias p => p.held
  | .wait p => p.held
  | .idle | .query _ => []

def ApiPc.needs : ApiPc D → List Mutex
  | .start _ p => p.needs
  | .stop p => p.needs
  | .bias p => p.needs
  | .wait p => p.needs
  | .query q => q.needs
  | .idle => []

def RecordPc.held : RecordPc D → List Mutex
  | .account .. | .commitData .. => [.record]
  | _ => []

def RecordPc.needs : RecordPc D → List Mutex
  | .observe .. | .commit .. => [.record]
  | .account .. | .commitData .. | .callbackFailed .. => [.data]
  | _ => []

def SessionPc.held : SessionPc D → List Mutex
  | .sendStart => [.command]
  | .record p => p.held
  | _ => []

def SessionPc.needs : SessionPc D → List Mutex
  | .connecting | .apply _ | .timedOut | .malformed | .valid .. => [.data]
  | .command => [.command]
  | .trackerReset => [.record]
  | .record p => p.needs
  | _ => []

def RunPc.held : RunPc D → List Mutex
  | .session p => p.held
  | .closeTransport _ => [.command]
  | .backoffBlock _ => [.data]
  | _ => []

def RunPc.needs : RunPc D → List Mutex
  | .session p => p.needs
  | .close _ => [.command]
  | .enterBackoff _ | .backoffWait | .backoffAsleep _ | .publish .. | .finalState => [.data]
  | _ => []

end NetFT.Client
