import NetFT.Client.ApiStep

/-! What the steps of a worker and of the entry points leave alone. The members that decide about
the worker's life are written only by `start` and `stop` (`SameControl`), and what happens in a
session is reported only by workers (`apiNext_events`). -/

namespace NetFT.Client
open Detail Library

variable {D : Type} {config : Config D} {w : World D} {i i' : Impl D} {n : Nat} {c : Choice D}
  {worker : Worker D} {r : RunNext D}

/-- The members that only `start` and `stop` write. -/
structure SameControl (i i' : Impl D) : Prop where
  worker : i'.worker = i.worker
  joining : i'.joining = i.joining
  activeWorkerId : i'.activeWorkerId = i.activeWorkerId
  callback : i'.callback = i.callback
  stopping : i'.stopping = i.stopping
  generation : i'.generation = i.generation

theorem SameControl.refl (i : Impl D) : SameControl i i := ⟨rfl, rfl, rfl, rfl, rfl, rfl⟩

section
variable (result : SessionResult) (outcome : Option SessionResult) (message : String)
  (events : List (Event D))

@[simp] theorem endSession_impl : (endSession i worker n result message events).impl = i := rfl

@[simp] theorem endSession_pc :
    (endSession i worker n result message events).worker.pc =
      .close (.session ⟨result, message, worker.receivedValidRecord⟩) := rfl

@[simp] theorem endSession_events :
    (endSession i worker n result message events).events =
      events ++ [.sessionEnded n ⟨result, message, worker.receivedValidRecord⟩] := rfl

@[simp] theorem afterRecord_impl : (afterRecord i worker n outcome events).impl = i := by
  cases outcome <;> rfl

end

/-- The accounting section as a whole. -/
theorem account_some {record : RawRecord} {receivedAt : TimePoint} {rdt : SequenceObservation}
    {ft : FtSequenceKind} {configuration : SensorConfiguration D} {verdict : Verdict}
    (h : i.account config record receivedAt rdt ft = some (i', configuration, verdict)) :
    i.health.sensorConfiguration = some configuration ∧
    i' = i.accounted config record receivedAt rdt ft ∧
    verdict = i.verdict config record receivedAt rdt ft := by
  unfold Impl.account at h
  split at h
  · cases h
  · cases h
    exact ⟨‹_›, rfl, rfl⟩

theorem publish_control (code : FaultCode) (message : String) :
    SameControl i (i.publish code message) := by
  unfold Impl.publish
  split <;> exact ⟨rfl, rfl, rfl, rfl, rfl, rfl⟩

@[simp] theorem publish_workerExited (code : FaultCode) (message : String) :
    (i.publish code message).workerExited = i.workerExited := by
  unfold Impl.publish
  split <;> rfl

theorem applyConfiguration_control [DecidableEq D] (configuration : SensorConfiguration D) :
    SameControl i (i.applyConfiguration configuration) := by
  unfold Impl.applyConfiguration
  split
  · split <;> exact ⟨rfl, rfl, rfl, rfl, rfl, rfl⟩
  · exact ⟨rfl, rfl, rfl, rfl, rfl, rfl⟩

@[simp] theorem applyConfiguration_workerExited [DecidableEq D]
    (configuration : SensorConfiguration D) :
    (i.applyConfiguration configuration).workerExited = i.workerExited := by
  unfold Impl.applyConfiguration
  split
  · split <;> rfl
  · rfl

theorem recordNext_control [Double D] {p : RecordPc D}
    (hnext : recordNext config w n c worker p = some r) : SameControl w.impl r.impl := by
  cases p with
  | account record receivedAt rdt ft =>
    simp only [recordNext] at hnext
    split at hnext
    · cases hnext; exact .refl _
    · rename_i haccount
      obtain ⟨-, rfl, -⟩ := account_some haccount
      split at hnext <;> cases hnext <;> simp only [afterRecord_impl] <;>
        exact ⟨rfl, rfl, rfl, rfl, rfl, rfl⟩
  | _ =>
    simp only [recordNext] at hnext
    (repeat' split at hnext) <;> cases hnext <;> simp only [afterRecord_impl] <;>
      exact ⟨rfl, rfl, rfl, rfl, rfl, rfl⟩

theorem recordNext_transport [Double D] {p : RecordPc D}
    (hnext : recordNext config w n c worker p = some r) : r.impl.transport = w.impl.transport := by
  cases p with
  | account record receivedAt rdt ft =>
    simp only [recordNext] at hnext
    split at hnext
    · cases hnext; rfl
    · obtain ⟨-, rfl, -⟩ := account_some ‹_›
      split at hnext <;> cases hnext <;> simp only [afterRecord_impl] <;> rfl
  | _ =>
    simp only [recordNext] at hnext
    (repeat' split at hnext) <;> cases hnext <;> simp only [afterRecord_impl] <;> rfl

/-- Where a step of `handle_record` leads. -/
theorem recordNext_pc [Double D] {p : RecordPc D}
    (hnext : recordNext config w n c worker p = some r) :
    (∃ q, r.worker.pc = .session (.record q)) ∨ r.worker.pc = .session .loop ∨
      (∃ outcome, r.worker.pc = .close (.session outcome)) ∨
      ∃ message, r.worker.pc = .raised message := by
  have hafter : ∀ {i : Impl D} {outcome : Option SessionResult} {events : List (Event D)},
      (afterRecord i worker n outcome events).worker.pc = .session .loop ∨
        ∃ o, (afterRecord i worker n outcome events).worker.pc = .close (.session o) := by
    intro i outcome events
    cases outcome with
    | none => exact .inl rfl
    | some result => exact .inr ⟨_, rfl⟩
  cases p <;> simp only [recordNext] at hnext <;> (repeat' split at hnext) <;> cases hnext <;>
    first
    | exact .inl ⟨_, rfl⟩
    | exact .inr (.inr (.inr ⟨_, rfl⟩))
    | exact .inr (hafter.imp_right .inl)

/-- Where a step of `receive_session` leads. -/
theorem sessionNext_pc [DecidableEq D] [Double D] {p : SessionPc D}
    (hnext : sessionNext config w n c worker p = some r) :
    (∃ q, r.worker.pc = .session q) ∨ (∃ outcome, r.worker.pc = .close (.session outcome)) ∨
      ∃ message, r.worker.pc = .raised message := by
  cases p with
  | record p =>
    rcases recordNext_pc hnext with ⟨q, hq⟩ | hloop | hend
    · exact .inl ⟨_, hq⟩
    · exact .inl ⟨_, hloop⟩
    · exact .inr hend
  | _ =>
    simp only [sessionNext] at hnext
    (repeat' split at hnext) <;> cases hnext <;>
      first
      | exact .inl ⟨_, rfl⟩
      | exact .inr (.inl ⟨_, rfl⟩)
      | exact .inr (.inr ⟨_, rfl⟩)

theorem sessionNext_control [DecidableEq D] [Double D] {p : SessionPc D}
    (hnext : sessionNext config w n c worker p = some r) : SameControl w.impl r.impl := by
  cases p with
  | record p => exact recordNext_control hnext
  | apply configuration => cases hnext; exact applyConfiguration_control configuration
  | _ =>
    simp only [sessionNext] at hnext
    (repeat' split at hnext) <;> cases hnext <;> exact ⟨rfl, rfl, rfl, rfl, rfl, rfl⟩

theorem runNext_control [DecidableEq D] [Double D] {p : RunPc D}
    (hnext : runNext config w n c worker p = some r) : SameControl w.impl r.impl := by
  cases p with
  | session p => exact sessionNext_control hnext
  | publish code message => cases hnext; exact publish_control code message
  | _ =>
    simp only [runNext] at hnext
    (repeat' split at hnext) <;> cases hnext <;> exact ⟨rfl, rfl, rfl, rfl, rfl, rfl⟩

/-! ## Events -/

/-- The events that workers emit. -/
def Event.byRun : Event D → Bool
  | .sessionBegan _ | .discovered .. | .discoveryFailed _ | .connected .. | .sent .. | .closed _
  | .processed .. | .copyFailed _ | .invoked .. | .callbackError _ | .delivered ..
  | .sessionEnded .. | .published .. | .runEnded _ => true
  | _ => false

theorem send_byRun {t : Tid} {command : Command} {e : Option String} {events : List (Event D)}
    (h : i.send t command c = some (e, events)) : ∀ e ∈ events, e.byRun = true := by
  unfold Impl.send at h
  split at h
  · cases h; simp
  · cases c <;> cases h <;> simp [Event.byRun]

theorem closedEvents_byRun : ∀ e ∈ i.closedEvents, e.byRun = true := by
  unfold Impl.closedEvents
  split <;> simp [Event.byRun]

theorem afterRecord_byRun {outcome : Option SessionResult} {events : List (Event D)}
    (h : ∀ e ∈ events, e.byRun = true) :
    ∀ e ∈ (afterRecord i worker n outcome events).events, e.byRun = true := by
  cases outcome with
  | none => exact h
  | some result => simpa [afterRecord, or_imp, forall_and, Event.byRun] using h

theorem recordNext_events [Double D] {p : RecordPc D}
    (hnext : recordNext config w n c worker p = some r) : ∀ e ∈ r.events, e.byRun = true := by
  cases p <;> simp only [recordNext] at hnext <;> (repeat' split at hnext) <;> cases hnext <;>
    first | exact afterRecord_byRun (by simp [Event.byRun]) | simp [Event.byRun]

theorem sessionNext_events [DecidableEq D] [Double D] {p : SessionPc D}
    (hnext : sessionNext config w n c worker p = some r) : ∀ e ∈ r.events, e.byRun = true := by
  cases p with
  | record p => exact recordNext_events hnext
  | sendStart =>
    simp only [sessionNext] at hnext
    split at hnext <;> cases hnext <;> exact send_byRun ‹_›
  | connect =>
    simp only [sessionNext] at hnext
    split at hnext <;> cases hnext
    · simpa [or_imp, forall_and, Event.byRun] using closedEvents_byRun
    · simp
  | _ =>
    simp only [sessionNext] at hnext
    (repeat' split at hnext) <;> cases hnext <;> simp [Event.byRun]

theorem runNext_events [DecidableEq D] [Double D] {p : RunPc D}
    (hnext : runNext config w n c worker p = some r) : ∀ e ∈ r.events, e.byRun = true := by
  cases p with
  | session p => exact sessionNext_events hnext
  | close context =>
    simp only [runNext] at hnext
    split at hnext
    · split at hnext <;> cases hnext
      exact send_byRun ‹_›
    · cases hnext; simp
  | closeTransport context => cases hnext; exact closedEvents_byRun
  | publish code message => cases hnext; dsimp only; split <;> simp [Event.byRun]
  | _ =>
    simp only [runNext] at hnext
    (repeat' split at hnext) <;> cases hnext <;> simp [Event.byRun, nextSession]

/-- The events that entry points emit. -/
def Event.byApi : Event D → Bool
  | .returned .. | .threw .. | .waited .. | .healthRead .. | .latestRead .. | .faultRead ..
  | .created _ | .joined .. | .sent .. => true
  | _ => false

theorem send_byApi {t : Tid} {command : Command} {e : Option String} {events : List (Event D)}
    (h : i.send t command c = some (e, events)) : ∀ e ∈ events, e.byApi = true := by
  unfold Impl.send at h
  split at h
  · cases h; simp
  · cases c <;> cases h <;> simp [Event.byApi]

theorem apiNext_events {t : Tid} {p : ApiPc D} {r : ApiNext D} (hnext : apiNext w t c p = some r) :
    ∀ e ∈ r.events, e.byApi = true := by
  cases apiNext_step hnext with
  | stopCommand _ h | biasSent h | biasRestarted h => exact send_byApi h
  | biasFailed h | biasRestartFailed h =>
    simpa [or_imp, forall_and, Event.byApi] using send_byApi h
  | _ => simp [Event.byApi]

/-- Among the entry points only `stop` shuts the transport down. -/
theorem apiNext_transport {p : ApiPc D} {r : ApiNext D} (hnext : apiNext w t c p = some r) :
    r.impl.transport = w.impl.transport ∧ p ≠ .stop .shutdown ∨
      p = .stop .shutdown ∧ r.impl = w.impl.shutdownTransport := by
  cases apiNext_step hnext with
  | stopShutdown => exact .inr ⟨rfl, rfl⟩
  | rollbackPublish =>
    refine .inl ⟨?_, fun h => by cases h⟩
    dsimp only [Impl.publish]
    split <;> rfl
  | _ => exact .inl ⟨rfl, fun h => by cases h⟩

/-! ## Tests of a step -/

/-- The test of the position from which an entry point steps. -/
def World.apiPasses (test : ApiPc D → Bool) (w : World D) : Action D → Bool
  | .api t _ => test (w.api t)
  | _ => true

end NetFT.Client
