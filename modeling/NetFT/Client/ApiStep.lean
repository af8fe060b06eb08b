import NetFT.Client.Locks

/-! The steps of the entry points, one constructor for each branch. `apiNext_step` is the only place
that takes `apiNext` apart as a whole; what a step of an entry point changes or leaves alone is read
off `ApiStep`. -/

namespace NetFT.Client
open Detail Library

variable {D : Type}

/-- `ApiStep w t c p r`: in `w` thread `t` goes on from position `p` as `r` says. -/
inductive ApiStep (w : World D) (t : Tid) (c : Choice D) : ApiPc D → ApiNext D → Prop
  -- `start`: the wait for `!joining_`
  | startOnWorker {callback} (h : w.impl.isActiveWorker t = true) :
    ApiStep w t c (.start callback .lock)
      { impl := w.impl, pc := .idle
        events := [.threw t (.start callback) "client is already running"] }
  | startJoining {callback} (hself : w.impl.isActiveWorker t = false)
    (h : w.impl.joining = true) :
    ApiStep w t c (.start callback .lock)
      { impl := w.impl, pc := .start callback .joiningBlock }
  | startFree {callback} (hself : w.impl.isActiveWorker t = false)
    (h : w.impl.joining = false) :
    ApiStep w t c (.start callback .lock) { impl := w.impl, pc := .start callback .joinable }
  | startJoiningBlock {callback} :
    ApiStep w t c (.start callback .joiningBlock)
      { impl := { w.impl with lifecycleCv := t :: w.impl.lifecycleCv }
        pc := .start callback .joiningAsleep }
  | startJoiningAgain {callback} (hawake : t ∉ w.impl.lifecycleCv) (h : w.impl.joining = true) :
    ApiStep w t c (.start callback .joiningAsleep)
      { impl := w.impl, pc := .start callback .joiningBlock }
  | startJoiningOver {callback} (hawake : t ∉ w.impl.lifecycleCv) (h : w.impl.joining = false) :
    ApiStep w t c (.start callback .joiningAsleep)
      { impl := w.impl, pc := .start callback .joinable }
  -- the worker that is there
  | noWorker {callback} (h : w.impl.worker = none) :
    ApiStep w t c (.start callback .joinable) { impl := w.impl, pc := .start callback .save }
  | takeExited {callback n} (hworker : w.impl.worker = some n) (h : w.impl.workerExited = true) :
    ApiStep w t c (.start callback .joinable)
      { impl := { w.impl with joining := true, worker := none }
        pc := .start callback (.join n) }
  | workerThere {callback n} (hworker : w.impl.worker = some n) (h : w.impl.workerExited = false) :
    ApiStep w t c (.start callback .joinable) { impl := w.impl, pc := .start callback .faulted }
  | workerFaulted {callback} (h : w.impl.faulted = true) :
    ApiStep w t c (.start callback .faulted) { impl := w.impl, pc := .start callback .exitEval }
  | workerRuns {callback} (h : w.impl.faulted = false) :
    ApiStep w t c (.start callback .faulted)
      { impl := w.impl, pc := .idle
        events := [.threw t (.start callback) "client is already running"] }
  | exitSeen {callback} (h : (w.impl.workerExited || !w.impl.faulted) = true) :
    ApiStep w t c (.start callback .exitEval) { impl := w.impl, pc := .start callback .lock }
  | exitUnseen {callback} (h : (w.impl.workerExited || !w.impl.faulted) = false) :
    ApiStep w t c (.start callback .exitEval) { impl := w.impl, pc := .start callback .exitBlock }
  | exitBlock {callback} :
    ApiStep w t c (.start callback .exitBlock)
      { impl := { w.impl with lifecycleCv := t :: w.impl.lifecycleCv }
        pc := .start callback .exitAsleep }
  | exitOver {callback} (hawake : t ∉ w.impl.lifecycleCv)
    (h : (w.impl.workerExited || !w.impl.faulted) = true) :
    ApiStep w t c (.start callback .exitAsleep) { impl := w.impl, pc := .start callback .lock }
  | exitAgain {callback} (hawake : t ∉ w.impl.lifecycleCv)
    (h : (w.impl.workerExited || !w.impl.faulted) = false) :
    ApiStep w t c (.start callback .exitAsleep)
      { impl := w.impl, pc := .start callback .exitBlock }
  | startJoin {callback n} (h : (w.workers n).pc = .exited) :
    ApiStep w t c (.start callback (.join n))
      { impl := w.impl, pc := .start callback (.reaped n), events := [.joined n t] }
  | reaped {callback n} :
    ApiStep w t c (.start callback (.reaped n))
      { impl := { w.impl with activeWorkerId := none, joining := false }
        pc := .start callback .reapedNotify }
  | reapedNotify {callback} :
    ApiStep w t c (.start callback .reapedNotify)
      { impl := w.impl.notifyLifecycle, pc := .start callback .lock }
  -- the reset and the thread
  | save {callback} :
    ApiStep w t c (.start callback .save)
      { impl := { w.impl with callback := none }
        pc := .start callback (.recordReset w.impl.saveFlags) }
  | recordReset {callback previous} :
    ApiStep w t c (.start callback (.recordReset previous))
      { impl := { w.impl with lastDeliveryAt := 0 }
        pc := .start callback
          (.dataReset { previous with lastDelivery := w.impl.lastDeliveryAt }) }
  | dataReset {callback previous} :
    ApiStep w t c (.start callback (.dataReset previous))
      { impl := w.impl.resetData, pc := .start callback (.clearStopping (w.impl.saveData previous)) }
  | clearStopping {callback previous} :
    ApiStep w t c (.start callback (.clearStopping previous))
      { impl := { w.impl with stopping := false }, pc := .start callback (.clearExited previous) }
  | clearExited {callback previous} :
    ApiStep w t c (.start callback (.clearExited previous))
      { impl := { w.impl with workerExited := false }, pc := .start callback (.create previous) }
  | created {callback previous} (h : c = .succeeds) :
    ApiStep w t c (.start callback (.create previous))
      { impl := { w.impl with callback, worker := some w.created }
        pc := .start callback .setActive
        spawn := true
        events := [.created w.created] }
  | notCreated {callback previous message} (h : c = .fails message) :
    ApiStep w t c (.start callback (.create previous))
      { impl := { w.impl with callback }, pc := .start callback (.rollback .stopping previous) }
  | setActive {callback} :
    ApiStep w t c (.start callback .setActive)
      { impl := { w.impl with activeWorkerId := w.impl.worker.map .worker }
        pc := .start callback .notifyFirst }
  | startNotifyFirst {callback} :
    ApiStep w t c (.start callback .notifyFirst)
      { impl := w.impl.notifyFirst, pc := .start callback .notifyLifecycle }
  | started {callback} :
    ApiStep w t c (.start callback .notifyLifecycle)
      { impl := w.impl.notifyLifecycle, pc := .idle, events := [.returned t (.start callback)] }
  -- the rollback
  | rollbackStopping {callback previous} :
    ApiStep w t c (.start callback (.rollback .stopping previous))
      { impl := { w.impl with stopping := previous.stopping }
        pc := .start callback (.rollback .exited previous) }
  | rollbackExited {callback previous} :
    ApiStep w t c (.start callback (.rollback .exited previous))
      { impl := { w.impl with workerExited := previous.workerExited, callback := previous.callback }
        pc := .start callback (.rollback .record previous) }
  | rollbackRecord {callback previous} :
    ApiStep w t c (.start callback (.rollback .record previous))
      { impl := { w.impl with lastDeliveryAt := previous.lastDelivery }
        pc := .start callback (.rollback .data previous) }
  | rollbackData {callback previous} :
    ApiStep w t c (.start callback (.rollback .data previous))
      { impl := w.impl.restoreData previous
        pc := .start callback (.rollback .latchReset previous) }
  | rollbackFault {callback previous} (h : previous.fault ≠ .none) :
    ApiStep w t c (.start callback (.rollback .latchReset previous))
      { impl := { w.impl with faultLatch := .none }
        pc := .start callback (.rollback .publish previous) }
  | rollbackNoFault {callback previous} (h : previous.fault = .none) :
    ApiStep w t c (.start callback (.rollback .latchReset previous))
      { impl := { w.impl with faultLatch := .none }
        pc := .start callback (.rollback .notifyFirst previous) }
  | rollbackPublish {callback previous} :
    ApiStep w t c (.start callback (.rollback .publish previous))
      { impl := w.impl.publish previous.fault previous.health.lastError
        pc := .start callback (.rollback .notifyFirst previous) }
  | rollbackNotifyFirst {callback previous} :
    ApiStep w t c (.start callback (.rollback .notifyFirst previous))
      { impl := w.impl.notifyFirst, pc := .start callback (.rollback .notifyLifecycle previous) }
  | rolledBack {callback previous} :
    ApiStep w t c (.start callback (.rollback .notifyLifecycle previous))
      { impl := w.impl.notifyLifecycle, pc := .idle
        events := [.threw t (.start callback) "thread creation failed"] }
  -- `stop`
  | stopFlag : ApiStep w t c (.stop .lock)
      { impl := { w.impl with stopping := true }, pc := .stop .notifyFirst }
  | stopNotifyFirst : ApiStep w t c (.stop .notifyFirst)
      { impl := w.impl.notifyFirst, pc := .stop .notifyLifecycle }
  | stopNotifyLifecycle : ApiStep w t c (.stop .notifyLifecycle)
      { impl := w.impl.notifyLifecycle, pc := .stop .command }
  | stopCommand {failure events} (hstarted : w.impl.sessionStarted = true)
    (h : w.impl.send t .stopStreaming c = some (failure, events)) :
    ApiStep w t c (.stop .command)
      { impl := { w.impl with sessionStarted := false }, pc := .stop .shutdown, events }
  | stopNoCommand (hstarted : w.impl.sessionStarted = false) :
    ApiStep w t c (.stop .command) { impl := w.impl, pc := .stop .shutdown }
  | stopShutdown : ApiStep w t c (.stop .shutdown)
      { impl := w.impl.shutdownTransport, pc := .stop .selfCheck }
  | stopOnWorker (h : w.impl.isActiveWorker t = true) :
    ApiStep w t c (.stop .selfCheck) { impl := w.impl, pc := .idle, events := [.returned t .stop] }
  | stopJoining (hself : w.impl.isActiveWorker t = false) (h : w.impl.joining = true) :
    ApiStep w t c (.stop .selfCheck) { impl := w.impl, pc := .stop .joiningBlock }
  | stopNoWorker (hself : w.impl.isActiveWorker t = false) (hjoining : w.impl.joining = false)
    (h : w.impl.worker = none) :
    ApiStep w t c (.stop .selfCheck) { impl := w.impl, pc := .stop .idle }
  | stopTake {n} (hself : w.impl.isActiveWorker t = false) (hjoining : w.impl.joining = false)
    (h : w.impl.worker = some n) :
    ApiStep w t c (.stop .selfCheck)
      { impl := { w.impl with joining := true, worker := none }, pc := .stop (.join n) }
  | stopJoiningBlock : ApiStep w t c (.stop .joiningBlock)
      { impl := { w.impl with lifecycleCv := t :: w.impl.lifecycleCv }, pc := .stop .joiningAsleep }
  | stopJoiningAgain (hawake : t ∉ w.impl.lifecycleCv) (h : w.impl.joining = true) :
    ApiStep w t c (.stop .joiningAsleep) { impl := w.impl, pc := .stop .joiningBlock }
  | stopJoiningOver (hawake : t ∉ w.impl.lifecycleCv) (h : w.impl.joining = false) :
    ApiStep w t c (.stop .joiningAsleep) { impl := w.impl, pc := .stop .lock }
  | stopIdleFaulted (h : w.impl.faulted = true) :
    ApiStep w t c (.stop .idle) { impl := w.impl, pc := .idle, events := [.returned t .stop] }
  | stopIdle (h : w.impl.faulted = false) :
    ApiStep w t c (.stop .idle) { impl := w.impl, pc := .stop .idleState }
  | stopIdleState : ApiStep w t c (.stop .idleState)
      { impl := w.impl.setState .stopped, pc := .idle, events := [.returned t .stop] }
  | stopJoin {n} (h : (w.workers n).pc = .exited) :
    ApiStep w t c (.stop (.join n))
      { impl := w.impl, pc := .stop (.joined n), events := [.joined n t] }
  | stopJoinedFaulted {n} (h : w.impl.faulted = true) :
    ApiStep w t c (.stop (.joined n)) { impl := w.impl, pc := .stop (.clear n) }
  | stopJoined {n} (h : w.impl.faulted = false) :
    ApiStep w t c (.stop (.joined n)) { impl := w.impl, pc := .stop (.joinedState n) }
  | stopJoinedState {n} : ApiStep w t c (.stop (.joinedState n))
      { impl := w.impl.setState .stopped, pc := .stop (.clear n) }
  | stopClear {n} : ApiStep w t c (.stop (.clear n))
      { impl := { w.impl with activeWorkerId := none, joining := false }
        pc := .stop .finalNotifyLifecycle }
  | stopFinalNotifyLifecycle : ApiStep w t c (.stop .finalNotifyLifecycle)
      { impl := w.impl.notifyLifecycle, pc := .stop .finalNotifyFirst }
  | stopped : ApiStep w t c (.stop .finalNotifyFirst)
      { impl := w.impl.notifyFirst, pc := .idle, events := [.returned t .stop] }
  -- `bias`
  | biasLock : ApiStep w t c (.bias .lock) { impl := w.impl, pc := .bias .record }
  | biasRecord : ApiStep w t c (.bias .record) { impl := w.impl, pc := .bias .check }
  | biasAllowed (h : w.impl.biasAllowed = true) :
    ApiStep w t c (.bias .check) { impl := w.impl, pc := .bias .bias }
  | biasDenied (h : w.impl.biasAllowed = false) :
    ApiStep w t c (.bias .check)
      { impl := w.impl, pc := .idle, events := [.threw t .bias "client is not streaming"] }
  | biasSent {events} (h : w.impl.send t .setSoftwareBias c = some (none, events)) :
    ApiStep w t c (.bias .bias) { impl := w.impl, pc := .bias .restart, events }
  | biasFailed {message events}
    (h : w.impl.send t .setSoftwareBias c = some (some message, events)) :
    ApiStep w t c (.bias .bias)
      { impl := w.impl, pc := .idle, events := events ++ [.threw t .bias message] }
  | biasRestarted {events} (h : w.impl.send t .startRealtime c = some (none, events)) :
    ApiStep w t c (.bias .restart) { impl := w.impl, pc := .bias .reset, events }
  | biasRestartFailed {message events}
    (h : w.impl.send t .startRealtime c = some (some message, events)) :
    ApiStep w t c (.bias .restart)
      { impl := w.impl, pc := .idle, events := events ++ [.threw t .bias message] }
  | biasReset : ApiStep w t c (.bias .reset)
      { impl := { w.impl with rdtSequence := w.impl.rdtSequence.reset }, pc := .idle
        events := [.returned t .bias] }
  -- `wait_for_first_sample`
  | waitUnstarted (h : w.impl.generation = 0) :
    ApiStep w t c (.wait .enter) { impl := w.impl, pc := .idle, events := [.waited t 0 false] }
  | waitAtOnce (hgeneration : w.impl.generation ≠ 0)
    (h : w.impl.waitOver w.impl.generation = true) :
    ApiStep w t c (.wait .enter)
      { impl := w.impl, pc := .idle
        events := [.waited t w.impl.generation (w.impl.waitResult w.impl.generation)] }
  | waitBegins (hgeneration : w.impl.generation ≠ 0)
    (h : w.impl.waitOver w.impl.generation = false) :
    ApiStep w t c (.wait .enter) { impl := w.impl, pc := .wait (.block w.impl.generation) }
  | waitBlock {captured} : ApiStep w t c (.wait (.block captured))
      { impl := { w.impl with firstSampleCv := t :: w.impl.firstSampleCv }
        pc := .wait (.asleep captured) }
  | waitExpires {captured} (h : c = .expires) :
    ApiStep w t c (.wait (.asleep captured))
      { impl := { w.impl with firstSampleCv := w.impl.firstSampleCv.filter (· ≠ t) }
        pc := .idle, events := [.waited t captured (w.impl.waitResult captured)] }
  | waitEnds {captured} (hc : c ≠ .expires) (hawake : t ∉ w.impl.firstSampleCv)
    (h : w.impl.waitOver captured = true) :
    ApiStep w t c (.wait (.asleep captured))
      { impl := w.impl, pc := .idle
        events := [.waited t captured (w.impl.waitResult captured)] }
  | waitAgain {captured} (hc : c ≠ .expires) (hawake : t ∉ w.impl.firstSampleCv)
    (h : w.impl.waitOver captured = false) :
    ApiStep w t c (.wait (.asleep captured)) { impl := w.impl, pc := .wait (.block captured) }
  -- the queries
  | health : ApiStep w t c (.query .health)
      { impl := (w.impl.takeHealth w.clock).1, pc := .idle
        events := [.healthRead t (w.impl.takeHealth w.clock).2] }
  | latestSample : ApiStep w t c (.query .latestSample)
      { impl := w.impl, pc := .idle, events := [.latestRead t w.impl.latest] }
  | faulted : ApiStep w t c (.query .faulted)
      { impl := w.impl, pc := .idle, events := [.faultRead t w.impl.faultLatch] }
  | faultCode : ApiStep w t c (.query .faultCode)
      { impl := w.impl, pc := .idle, events := [.faultRead t w.impl.faultLatch] }

variable {w : World D} {t : Tid} {c : Choice D} {r : ApiNext D}

theorem startNext_step {callback : Option Nat} {q : StartPc D}
    (hnext : startNext w t callback c q = some r) : ApiStep w t c (.start callback q) r := by
  cases q with
  | lock =>
    simp only [startNext] at hnext
    split at hnext <;> cases hnext
    · exact .startOnWorker ‹_›
    · have hself := eq_false_of_ne_true ‹_›
      split
      · exact .startJoining hself ‹_›
      · exact .startFree hself (eq_false_of_ne_true ‹_›)
  | joiningAsleep =>
    simp only [startNext] at hnext
    split at hnext <;> cases hnext
    split
    · exact .startJoiningAgain ‹_› ‹_›
    · exact .startJoiningOver ‹_› (eq_false_of_ne_true ‹_›)
  | joinable =>
    simp only [startNext] at hnext
    (repeat' split at hnext) <;> cases hnext
    · exact .noWorker ‹_›
    · exact .takeExited ‹_› ‹_›
    · exact .workerThere ‹_› (eq_false_of_ne_true ‹_›)
  | faulted =>
    simp only [startNext] at hnext
    split at hnext <;> cases hnext
    · exact .workerFaulted ‹_›
    · exact .workerRuns (eq_false_of_ne_true ‹_›)
  | exitEval =>
    cases hnext
    simp only [startExitNext]
    split
    · exact .exitSeen ‹_›
    · exact .exitUnseen (eq_false_of_ne_true ‹_›)
  | exitAsleep =>
    simp only [startNext, startExitNext] at hnext
    split at hnext <;> cases hnext
    split
    · exact .exitOver ‹_› ‹_›
    · exact .exitAgain ‹_› (eq_false_of_ne_true ‹_›)
  | join n =>
    simp only [startNext] at hnext
    split at hnext <;> cases hnext
    exact .startJoin ‹_›
  | create previous =>
    simp only [startNext] at hnext
    split at hnext <;> cases hnext
    · exact .created rfl
    · exact .notCreated rfl
  | rollback q previous =>
    cases hnext
    cases q with
    | latchReset =>
      simp only [rollbackNext]
      split
      · exact .rollbackFault ‹_›
      · exact .rollbackNoFault (not_not.mp ‹_›)
    | _ => constructor
  | _ => cases hnext; constructor

theorem stopNext_step {q : StopPc} (hnext : stopNext w t c q = some r) :
    ApiStep w t c (.stop q) r := by
  cases q with
  | command =>
    simp only [stopNext] at hnext
    split at hnext
    · split at hnext <;> cases hnext
      exact .stopCommand ‹_› ‹_›
    · cases hnext
      exact .stopNoCommand (eq_false_of_ne_true ‹_›)
  | selfCheck =>
    simp only [stopNext, stopDecideNext] at hnext
    cases hnext
    split
    · exact .stopOnWorker ‹_›
    · have hself := eq_false_of_ne_true ‹_›
      split
      · exact .stopJoining hself ‹_›
      · have hjoining := eq_false_of_ne_true ‹_›
        split
        · exact .stopNoWorker hself hjoining ‹_›
        · exact .stopTake hself hjoining ‹_›
  | joiningAsleep =>
    simp only [stopNext] at hnext
    split at hnext <;> cases hnext
    split
    · exact .stopJoiningAgain ‹_› ‹_›
    · exact .stopJoiningOver ‹_› (eq_false_of_ne_true ‹_›)
  | idle =>
    simp only [stopNext] at hnext
    split at hnext <;> cases hnext
    · exact .stopIdleFaulted ‹_›
    · exact .stopIdle (eq_false_of_ne_true ‹_›)
  | join n =>
    simp only [stopNext] at hnext
    split at hnext <;> cases hnext
    exact .stopJoin ‹_›
  | joined n =>
    cases hnext
    split
    · exact .stopJoinedFaulted ‹_›
    · exact .stopJoined (eq_false_of_ne_true ‹_›)
  | _ => cases hnext; constructor

theorem biasNext_step {q : BiasPc} (hnext : biasNext w t c q = some r) :
    ApiStep w t c (.bias q) r := by
  cases q with
  | check =>
    simp only [biasNext] at hnext
    split at hnext <;> cases hnext
    · exact .biasAllowed ‹_›
    · exact .biasDenied (eq_false_of_ne_true ‹_›)
  | bias =>
    simp only [biasNext] at hnext
    split at hnext <;> cases hnext
    · exact .biasSent ‹_›
    · exact .biasFailed ‹_›
  | restart =>
    simp only [biasNext] at hnext
    split at hnext <;> cases hnext
    · exact .biasRestarted ‹_›
    · exact .biasRestartFailed ‹_›
  | _ => cases hnext; constructor

theorem waitNext_step {q : WaitPc} (hnext : waitNext w t c q = some r) :
    ApiStep w t c (.wait q) r := by
  cases q with
  | enter =>
    simp only [waitNext] at hnext
    (repeat' split at hnext) <;> cases hnext
    · exact .waitUnstarted ‹_›
    · exact .waitAtOnce ‹_› ‹_›
    · exact .waitBegins ‹_› (eq_false_of_ne_true ‹_›)
  | block captured => cases hnext; constructor
  | asleep captured =>
    simp only [waitNext] at hnext
    split at hnext
    · cases hnext; exact .waitExpires rfl
    · rename_i hc
      (repeat' split at hnext) <;> cases hnext
      · exact .waitEnds hc ‹_› ‹_›
      · exact .waitAgain hc ‹_› (eq_false_of_ne_true ‹_›)

theorem apiNext_step {p : ApiPc D} (hnext : apiNext w t c p = some r) : ApiStep w t c p r := by
  cases p with
  | idle => cases hnext
  | start callback q => exact startNext_step hnext
  | stop q => exact stopNext_step hnext
  | bias q => exact biasNext_step hnext
  | wait q => exact waitNext_step hnext
  | query q => cases q <;> cases hnext <;> constructor

end NetFT.Client
