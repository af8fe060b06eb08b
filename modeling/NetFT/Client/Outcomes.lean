import NetFT.Client.Lifetime

/-! How sessions end. The outcome that `handle_record` is about to return is one of five, and
every other outcome of `receive_session` belongs to one of its positions. -/

namespace NetFT.Client
open Detail Library

variable {D : Type}

/-- The results that `handle_record` returns. -/
def SessionResult.ofRecord : SessionResult → Bool
  | .sensorConfiguration | .seriousStatus | .ftStall | .ftBackward | .callback => true
  | _ => false

/-- The result that `handle_record` has selected so far. -/
def RecordPc.outcome : RecordPc D → Option SessionResult
  | .observe .. | .account .. => none
  | .copyCallback _ outcome | .inCallback _ outcome | .callbackFailed _ outcome
  | .commit _ outcome | .commitData _ outcome | .notifyFirst outcome
  | .notifyLifecycle outcome => outcome

def RunPc.recordOutcome : RunPc D → Option SessionResult
  | .session (.record p) => p.outcome
  | _ => none

/-- In every worker, a selected result is one of `handle_record`. -/
def RecordOutcomes (w : World D) : Prop :=
  ∀ n result, (w.workers n).pc.recordOutcome = some result → result.ofRecord = true

/-- How a session may end with a result, from a position of `receive_session`. -/
inductive Ends (w : World D) : RunPc D → SessionResult → Prop
  | stopped {p : RunPc D} (hstop : w.impl.stopping = true) : Ends w p .stopped
  | discovery (message : String) (hstop : w.impl.stopping = false) :
    Ends w (.session (.discoverFailed message)) .sensorConfiguration
  | socket (message : String) (hstop : w.impl.stopping = false) :
    Ends w (.session (.socketFailed message)) .socket
  | timeout (hstop : w.impl.stopping = false) : Ends w (.session .timedOut) .timeout
  | malformedStorm : Ends w (.session .malformed) .malformedStorm
  | record (q : RecordPc D) {result : SessionResult} (hresult : result.ofRecord = true) :
    Ends w (.session (.record q)) result

variable {config : Config D} {w w' : World D} {t : Tid} {n : Nat} {c : Choice D}
  {worker : Worker D} {r : RunNext D}

theorem Ends.timedOut {p : RunPc D} (h : Ends w p .timeout) :
    p = .session .timedOut ∧ w.impl.stopping = false := by
  cases h with
  | timeout hstop => exact ⟨rfl, hstop⟩
  | record q hresult => cases hresult

theorem statusOutcome_ofRecord {severity : StatusSeverity} {ft : FtSequenceKind}
    {result : SessionResult} (h : statusOutcome severity ft = some result) :
    result.ofRecord = true := by
  unfold statusOutcome at h
  (repeat' split at h) <;> cases h <;> rfl

theorem recordVerdict_ofRecord {lastDeliveryAt receivedAt : TimePoint} {rdt : SequenceKind}
    {ft : FtSequenceKind} {severity : StatusSeverity} {result : SessionResult}
    (h : (recordVerdict config lastDeliveryAt receivedAt rdt ft severity).outcome = some result) :
    result.ofRecord = true := by
  have houtcome : (recordVerdict config lastDeliveryAt receivedAt rdt ft severity).outcome = none ∨
      (recordVerdict config lastDeliveryAt receivedAt rdt ft severity).outcome =
        statusOutcome severity ft := by
    simp only [recordVerdict]
    (repeat' split) <;> simp
  rcases houtcome with hnone | hstatus
  · rw [hnone] at h; cases h
  · exact statusOutcome_ofRecord (hstatus ▸ h)

theorem callbackFailureOutcome_ofRecord {outcome : Option SessionResult} {result : SessionResult}
    (houtcome : ∀ result, outcome = some result → result.ofRecord = true)
    (h : callbackFailureOutcome config outcome = some result) : result.ofRecord = true := by
  unfold callbackFailureOutcome at h
  split at h
  · exact houtcome result h
  · cases h; rfl

/-- A record that is not handed to the callback: filtered, or its axes are not finite. -/
theorem dispose_finish [Double D] {configuration : SensorConfiguration D} {record : RawRecord}
    {receivedAt : TimePoint} {verdict : Verdict} {outcome : Option SessionResult}
    (h : dispose configuration record receivedAt verdict = .finish outcome) :
    verdict.deliver = false ∧ outcome = verdict.outcome ∨
    verdict.deliver = true ∧ finiteAxes (makeSample configuration record receivedAt) = false ∧
      outcome = some .sensorConfiguration := by
  unfold dispose at h
  split at h
  · cases h
    exact .inl ⟨by simp_all, rfl⟩
  · dsimp only at h
    split at h <;> cases h
    exact .inr ⟨by simp_all, by simp_all, rfl⟩

/-- A record that is handed to the callback. -/
theorem dispose_deliver [Double D] {configuration : SensorConfiguration D} {record : RawRecord}
    {receivedAt : TimePoint} {verdict : Verdict} {outcome : Option SessionResult}
    {sample : Sample D} (h : dispose configuration record receivedAt verdict = .deliver sample outcome) :
    verdict.deliver = true ∧ sample = makeSample configuration record receivedAt ∧
      finiteAxes sample = true ∧ outcome = verdict.outcome := by
  unfold dispose at h
  split at h
  · cases h
  · dsimp only at h
    split at h <;> cases h
    exact ⟨by simp_all, rfl, by simp_all, rfl⟩

theorem afterRecord_recordOutcome {i : Impl D} {outcome : Option SessionResult}
    {events : List (Event D)} :
    (afterRecord i worker n outcome events).worker.pc.recordOutcome = none := by
  cases outcome <;> rfl

theorem afterRecord_ended {i : Impl D} {outcome : Option SessionResult} {events : List (Event D)}
    {k : Nat} {o : SessionOutcome} (hevents : ∀ k o, .sessionEnded k o ∉ events)
    (h : .sessionEnded k o ∈ (afterRecord i worker n outcome events).events) :
    k = n ∧ (afterRecord i worker n outcome events).worker.pc = .close (.session o) ∧
      outcome = some o.result := by
  cases outcome with
  | none => exact absurd h (hevents k o)
  | some result =>
    rcases List.mem_append.mp h with h | h
    · exact absurd h (hevents k o)
    · cases List.mem_singleton.mp h
      exact ⟨rfl, rfl, rfl⟩

theorem recordNext_outcome [Double D] {p : RecordPc D}
    (hnext : recordNext config w n c worker p = some r)
    (hp : ∀ result, p.outcome = some result → result.ofRecord = true) {result : SessionResult}
    (hr : r.worker.pc.recordOutcome = some result) : result.ofRecord = true := by
  cases p with
  | account record receivedAt rdt ft =>
    simp only [recordNext] at hnext
    split at hnext
    · cases hnext; cases hr
    rename_i haccount
    obtain ⟨-, -, hverdict⟩ := account_some haccount
    split at hnext <;> cases hnext
    · rw [afterRecord_recordOutcome] at hr; cases hr
    · obtain ⟨-, -, -, rfl⟩ := dispose_deliver ‹_›
      rw [hverdict] at hr
      exact recordVerdict_ofRecord hr
  | _ =>
    simp only [recordNext] at hnext
    (repeat' split at hnext) <;> cases hnext <;>
      first
      | (rw [afterRecord_recordOutcome] at hr; cases hr)
      | exact hp result hr

theorem recordNext_ended [Double D] {p : RecordPc D} {k : Nat} {outcome : SessionOutcome}
    (hnext : recordNext config w n c worker p = some r)
    (hp : ∀ result, p.outcome = some result → result.ofRecord = true)
    (he : .sessionEnded k outcome ∈ r.events) :
    k = n ∧ r.worker.pc = .close (.session outcome) ∧ outcome.result.ofRecord = true := by
  cases p with
  | account record receivedAt rdt ft =>
    simp only [recordNext] at hnext
    split at hnext
    · cases hnext; simp at he
    rename_i haccount
    obtain ⟨-, -, hverdict⟩ := account_some haccount
    split at hnext <;> cases hnext
    · rename_i hdispose
      obtain ⟨rfl, hpc, hout⟩ := afterRecord_ended (by simp) he
      refine ⟨rfl, hpc, ?_⟩
      rcases dispose_finish hdispose with ⟨-, rfl⟩ | ⟨-, -, rfl⟩
      · rw [hverdict] at hout
        exact recordVerdict_ofRecord hout
      · rw [← Option.some.inj hout]; rfl
    · simp at he
  | callbackFailed message out =>
    cases hnext
    obtain ⟨rfl, hpc, hout⟩ := afterRecord_ended (by simp) he
    exact ⟨rfl, hpc, callbackFailureOutcome_ofRecord hp hout⟩
  | notifyLifecycle out =>
    cases hnext
    obtain ⟨rfl, hpc, hout⟩ := afterRecord_ended (by simp) he
    exact ⟨rfl, hpc, hp _ hout⟩
  | _ =>
    simp only [recordNext] at hnext
    (repeat' split at hnext) <;> cases hnext <;> simp at he

theorem send_no_sessionEnded {i : Impl D} {command : Command} {e : Option String}
    {events : List (Event D)} (h : i.send t command c = some (e, events)) (k : Nat)
    (outcome : SessionOutcome) : .sessionEnded k outcome ∉ events := by
  unfold Impl.send at h
  split at h
  · cases h; simp
  · cases c <;> cases h <;> simp

theorem closedEvents_no_sessionEnded (i : Impl D) (k : Nat) (outcome : SessionOutcome) :
    .sessionEnded k outcome ∉ i.closedEvents := by
  unfold Impl.closedEvents
  split <;> simp

section
variable [DecidableEq D] [Double D]

theorem sessionNext_outcome {p : SessionPc D} (hnext : sessionNext config w n c worker p = some r)
    (hp : ∀ result, (RunPc.session p).recordOutcome = some result → result.ofRecord = true)
    {result : SessionResult} (hr : r.worker.pc.recordOutcome = some result) :
    result.ofRecord = true := by
  cases p with
  | record p => exact recordNext_outcome hnext hp hr
  | pollCheck =>
    cases hnext
    dsimp only at hr
    split at hr <;> cases hr
  | _ =>
    simp only [sessionNext] at hnext
    (repeat' split at hnext) <;> cases hnext <;> cases hr

theorem runNext_outcome {p : RunPc D} (hnext : runNext config w n c worker p = some r)
    (hp : ∀ result, p.recordOutcome = some result → result.ofRecord = true)
    {result : SessionResult} (hr : r.worker.pc.recordOutcome = some result) :
    result.ofRecord = true := by
  cases p with
  | session p => exact sessionNext_outcome hnext hp hr
  | closeTransport context => cases hnext; cases context <;> cases hr
  | raised message =>
    cases hnext
    dsimp only at hr
    split at hr <;> cases hr
  | finalFaulted =>
    cases hnext
    dsimp only at hr
    split at hr <;> cases hr
  | _ =>
    simp only [runNext] at hnext
    (repeat' split at hnext) <;> cases hnext <;> cases hr

theorem RecordOutcomes.move (h : RecordOutcomes w) (hm : Moved config w w' l) :
    RecordOutcomes w' := by
  intro k result hk
  cases hm with
  | tick | spurious | call => exact h k result hk
  | run n c r hnext htake =>
    rw [World.applyRun_workers] at hk
    by_cases hkn : k = n
    · subst hkn
      rw [Function.update_self] at hk
      exact runNext_outcome hnext (h k) hk
    · rw [Function.update_of_ne hkn] at hk
      exact h k result hk
  | api t c r hnext htake =>
    by_cases hk' : k = w.created
    · subst hk'
      simp only [World.applyApi] at hk
      split at hk
      · rw [Function.update_self] at hk
        cases hk
      · exact h _ result hk
    · rw [applyApi_workers_ne hk'] at hk
      exact h k result hk

theorem Reachable.recordOutcomes (h : Reachable config w l) : RecordOutcomes w :=
  h.induction (I := fun v _ => RecordOutcomes v) (fun _ _ _ => (fun h => by cases h))
    fun _ hi hm => hi.move hm

theorem sessionNext_ended {p : SessionPc D} {k : Nat} {outcome : SessionOutcome}
    (hnext : sessionNext config w n c worker p = some r)
    (hp : ∀ result, (RunPc.session p).recordOutcome = some result → result.ofRecord = true)
    (he : .sessionEnded k outcome ∈ r.events) :
    k = n ∧ r.worker.pc = .close (.session outcome) ∧ Ends w (.session p) outcome.result := by
  cases p with
  | record p =>
    obtain ⟨hk, hpc, hresult⟩ := recordNext_ended hnext hp he
    exact ⟨hk, hpc, .record p hresult⟩
  | discoverFailed message =>
    cases hnext
    cases List.mem_singleton.mp he
    refine ⟨rfl, rfl, ?_⟩
    cases hstop : w.impl.stopping
    · exact .discovery message hstop
    · exact .stopped hstop
  | socketFailed message =>
    cases hnext
    cases List.mem_singleton.mp he
    refine ⟨rfl, rfl, ?_⟩
    cases hstop : w.impl.stopping
    · exact .socket message hstop
    · exact .stopped hstop
  | timedOut =>
    simp only [sessionNext] at hnext
    split at hnext <;> cases hnext <;> cases List.mem_singleton.mp he
    · exact ⟨rfl, rfl, .stopped ‹_›⟩
    · exact ⟨rfl, rfl, .timeout (eq_false_of_ne_true ‹_›)⟩
  | malformed =>
    simp only [sessionNext] at hnext
    split at hnext <;> cases hnext
    · cases List.mem_singleton.mp he
      exact ⟨rfl, rfl, .malformedStorm⟩
    · simp at he
  | checkBeforeDiscovery | checkBeforeConnect | command | loop | received =>
    simp only [sessionNext] at hnext
    (repeat' split at hnext) <;> cases hnext <;>
      first
      | (cases List.mem_singleton.mp he; exact ⟨rfl, rfl, .stopped ‹_›⟩)
      | simp at he
  | sendStart =>
    simp only [sessionNext] at hnext
    split at hnext <;> cases hnext <;>
      exact absurd he (send_no_sessionEnded ‹_› k outcome)
  | connect =>
    simp only [sessionNext] at hnext
    split at hnext <;> cases hnext
    · rcases List.mem_append.mp he with he | he
      · exact absurd he (closedEvents_no_sessionEnded _ k outcome)
      · simp at he
    · simp at he
  | _ =>
    simp only [sessionNext] at hnext
    (repeat' split at hnext) <;> cases hnext <;> simp at he

/-- The session that ends does so in the worker that steps, in one of the ways of `Ends`. -/
theorem runNext_ended {p : RunPc D} {k : Nat} {outcome : SessionOutcome}
    (hnext : runNext config w n c worker p = some r)
    (hp : ∀ result, p.recordOutcome = some result → result.ofRecord = true)
    (he : .sessionEnded k outcome ∈ r.events) :
    k = n ∧ r.worker.pc = .close (.session outcome) ∧ Ends w p outcome.result := by
  cases p with
  | session p => exact sessionNext_ended hnext hp he
  | close context =>
    simp only [runNext] at hnext
    split at hnext
    · split at hnext <;> cases hnext
      exact absurd he (send_no_sessionEnded ‹_› k outcome)
    · cases hnext; simp at he
  | closeTransport context => cases hnext; exact absurd he (closedEvents_no_sessionEnded _ k outcome)
  | publish code message =>
    cases hnext
    dsimp only at he
    split at he <;> simp at he
  | _ =>
    simp only [runNext] at hnext
    (repeat' split at hnext) <;> cases hnext <;> simp [nextSession] at he

end

/-- The worker that an event of a session is about. -/
def Event.owner : Event D → Option Nat
  | .sessionBegan n | .discovered n _ | .discoveryFailed n | .connected n _ | .processed n _
  | .copyFailed n | .invoked n _ | .callbackError n | .delivered n _ | .sessionEnded n _
  | .published n _ | .runEnded n => some n
  | _ => none

theorem send_owner {i : Impl D} {command : Command} {e : Option String}
    {events : List (Event D)} (h : i.send t command c = some (e, events)) :
    ∀ e ∈ events, e.owner = none := by
  unfold Impl.send at h
  split at h
  · cases h; simp
  · cases c <;> cases h <;> simp [Event.owner]

theorem closedEvents_owner (i : Impl D) : ∀ e ∈ i.closedEvents, e.owner = none := by
  unfold Impl.closedEvents
  split <;> simp [Event.owner]

theorem afterRecord_owner {i : Impl D} {outcome : Option SessionResult} {events : List (Event D)}
    (h : ∀ e ∈ events, e.owner = none ∨ e.owner = some n) :
    ∀ e ∈ (afterRecord i worker n outcome events).events, e.owner = none ∨ e.owner = some n := by
  cases outcome with
  | none => exact h
  | some result => simpa [afterRecord, or_imp, forall_and, Event.owner] using h

section
variable [DecidableEq D] [Double D]

/-- A worker reports of itself only. -/
theorem runNext_owner {p : RunPc D} (hnext : runNext config w n c worker p = some r) :
    ∀ e ∈ r.events, e.owner = none ∨ e.owner = some n := by
  cases p with
  | session q =>
    cases q with
    | record q =>
      cases q <;> simp only [runNext, sessionNext, recordNext] at hnext <;>
        (repeat' split at hnext) <;> cases hnext <;>
        first
        | exact afterRecord_owner (by simp [Event.owner])
        | simp [Event.owner]
    | sendStart =>
      simp only [runNext, sessionNext] at hnext
      split at hnext <;> cases hnext <;> exact fun e he => .inl (send_owner ‹_› e he)
    | connect =>
      simp only [runNext, sessionNext] at hnext
      split at hnext <;> cases hnext
      · intro e he
        rcases List.mem_append.mp he with he | he
        · exact .inl (closedEvents_owner _ e he)
        · cases List.mem_singleton.mp he
          exact .inr rfl
      · simp
    | _ =>
      simp only [runNext, sessionNext] at hnext
      (repeat' split at hnext) <;> cases hnext <;> simp [Event.owner]
  | close context =>
    simp only [runNext] at hnext
    split at hnext
    · split at hnext <;> cases hnext
      exact fun e he => .inl (send_owner ‹_› e he)
    · cases hnext; simp
  | closeTransport context => cases hnext; exact fun e he => .inl (closedEvents_owner _ e he)
  | publish code message =>
    cases hnext
    dsimp only
    split <;> simp [Event.owner]
  | _ =>
    simp only [runNext] at hnext
    (repeat' split at hnext) <;> cases hnext <;> simp [Event.owner, nextSession]

end

theorem afterRecord_processed {i : Impl D} {outcome : Option SessionResult}
    {events : List (Event D)} {k : Nat} {x : Processed D} :
    .processed k x ∈ (afterRecord i worker n outcome events).events ↔ .processed k x ∈ events := by
  cases outcome with
  | none => exact Iff.rfl
  | some result => simp [afterRecord]

theorem owner_of_byApi {e : Event D} (h : e.byApi = true) : e.owner = none := by
  cases e <;> first | rfl | cases h

section
variable [DecidableEq D] [Double D]

/-- An event that no entry point emits is emitted by a worker. -/
theorem run_of_event {a : Action D} {e : Event D} (hstep : step config w a = some (w', l))
    (he : e ∈ l) (hrun : e.byRun = true) (hapi : e.byApi = false) : ∃ n c, a = .run n c := by
  cases a with
  | run n c => exact ⟨n, c, rfl⟩
  | api t c =>
    obtain ⟨r, hnext, -, -, rfl⟩ := step_api hstep
    simp [apiNext_events hnext e he] at hapi
  | call t call =>
    simp only [step] at hstep
    (repeat' split at hstep) <;> cases hstep
    rw [List.mem_singleton.mp he] at hrun
    cases hrun
  | tick | spurious => cases hstep; cases he

/-- A record is reported as processed by the accounting section. -/
theorem runNext_processed {p : RunPc D} {k : Nat} {x : Processed D}
    (hnext : runNext config w n c worker p = some r) (he : .processed k x ∈ r.events) :
    k = n ∧ p = .session (.record (.account x.record x.receivedAt x.rdt x.ft)) ∧
      r.impl = w.impl.accounted config x.record x.receivedAt x.rdt x.ft ∧
      ∃ configuration, w.impl.health.sensorConfiguration = some configuration ∧
        x.rateLimited = (w.impl.verdict config x.record x.receivedAt x.rdt x.ft).rateLimited ∧
        x.converted = if (w.impl.verdict config x.record x.receivedAt x.rdt x.ft).deliver then
          some (makeSample configuration x.record x.receivedAt) else none := by
  cases p with
  | session q =>
    cases q with
    | record q =>
      cases q with
      | account record receivedAt rdt ft =>
        simp only [runNext, sessionNext, recordNext] at hnext
        split at hnext
        · cases hnext; simp at he
        rename_i haccount
        obtain ⟨hconfiguration, rfl, rfl⟩ := account_some haccount
        split at hnext <;> cases hnext
        · have he := afterRecord_processed.mp he
          cases List.mem_singleton.mp he
          exact ⟨rfl, rfl, by rw [afterRecord_impl], _, hconfiguration, rfl, rfl⟩
        · cases List.mem_singleton.mp he
          exact ⟨rfl, rfl, rfl, _, hconfiguration, rfl, rfl⟩
      | _ =>
        simp only [runNext, sessionNext, recordNext] at hnext
        (repeat' split at hnext) <;> cases hnext <;>
          first
          | simp at he
          | exact absurd (afterRecord_processed.mp he) (by simp)
    | sendStart =>
      simp only [runNext, sessionNext] at hnext
      split at hnext <;> cases hnext <;> cases send_owner ‹_› _ he
    | connect =>
      simp only [runNext, sessionNext] at hnext
      split at hnext <;> cases hnext
      · rcases List.mem_append.mp he with he | he
        · cases closedEvents_owner _ _ he
        · simp at he
      · simp at he
    | _ =>
      simp only [runNext, sessionNext] at hnext
      (repeat' split at hnext) <;> cases hnext <;> simp at he
  | close context =>
    simp only [runNext] at hnext
    split at hnext
    · split at hnext <;> cases hnext
      cases send_owner ‹_› _ he
    · cases hnext; simp at he
  | closeTransport context => cases hnext; cases closedEvents_owner _ _ he
  | publish code message =>
    cases hnext
    dsimp only at he
    split at he <;> simp at he
  | _ =>
    simp only [runNext] at hnext
    (repeat' split at hnext) <;> cases hnext <;> simp [nextSession] at he

end

/-- The positions of a worker at which it reports an event. -/
def Event.reportedAt (p : RunPc D) : Event D → Prop
  | .sessionBegan _ => p = .top
  | .discovered .. | .discoveryFailed _ => p = .session .discover
  | .connected .. => p = .session .connect
  | .copyFailed _ => ∃ sample outcome, p = .session (.record (.copyCallback sample outcome))
  | .invoked _ sample => ∃ outcome, p = .session (.record (.copyCallback sample outcome))
  | .callbackError _ => ∃ message outcome, p = .session (.record (.callbackFailed message outcome))
  | .delivered _ sample => ∃ outcome, p = .session (.record (.commitData sample outcome))
  | _ => True

theorem reportedAt_of_owner {p : RunPc D} {e : Event D} (h : e.owner = none) :
    e.reportedAt p := by
  cases e <;> trivial

theorem afterRecord_reportedAt {p : RunPc D} {i : Impl D} {outcome : Option SessionResult}
    {events : List (Event D)} (h : ∀ e ∈ events, e.reportedAt p) :
    ∀ e ∈ (afterRecord i worker n outcome events).events, e.reportedAt p := by
  cases outcome with
  | none => exact h
  | some result => simpa [afterRecord, or_imp, forall_and, Event.reportedAt] using h

section
variable [DecidableEq D] [Double D]

theorem runNext_reportedAt {p : RunPc D} (hnext : runNext config w n c worker p = some r) :
    ∀ e ∈ r.events, e.reportedAt p := by
  cases p with
  | session q =>
    cases q with
    | record q =>
      cases q <;> simp only [runNext, sessionNext, recordNext] at hnext <;>
        (repeat' split at hnext) <;> cases hnext <;>
        first
        | exact afterRecord_reportedAt (by simp [Event.reportedAt])
        | simp [Event.reportedAt]
    | sendStart =>
      simp only [runNext, sessionNext] at hnext
      split at hnext <;> cases hnext <;>
        exact fun e he => reportedAt_of_owner (send_owner ‹_› e he)
    | connect =>
      simp only [runNext, sessionNext] at hnext
      split at hnext <;> cases hnext
      · intro e he
        rcases List.mem_append.mp he with he | he
        · exact reportedAt_of_owner (closedEvents_owner _ e he)
        · cases List.mem_singleton.mp he
          rfl
      · simp
    | _ =>
      simp only [runNext, sessionNext] at hnext
      (repeat' split at hnext) <;> cases hnext <;> simp [Event.reportedAt]
  | close context =>
    simp only [runNext] at hnext
    split at hnext
    · split at hnext <;> cases hnext
      exact fun e he => reportedAt_of_owner (send_owner ‹_› e he)
    · cases hnext; simp
  | closeTransport context =>
    cases hnext
    exact fun e he => reportedAt_of_owner (closedEvents_owner _ e he)
  | publish code message =>
    cases hnext
    dsimp only
    split <;> simp [Event.reportedAt]
  | _ =>
    simp only [runNext] at hnext
    (repeat' split at hnext) <;> cases hnext <;> simp [Event.reportedAt, nextSession]

end

end NetFT.Client
