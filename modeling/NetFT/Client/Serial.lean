import NetFT.Client.FreshStart
import NetFT.Client.Launch

/-! The record line as one sequential program. `Serial` reads the reports of a history and accepts
them if they are those of a single thread that opens sessions, handles one record after the other
and restarts the RDT numbering when a `bias` returns. The client, in any interleaving of its worker
with the entry points and over all its runs, reports no history that is not accepted
(`record_line_serial`). -/

namespace NetFT.Client
open Detail Library

variable {D : Type}

/-! ## The sequential program -/

/-- What is still to be reported of the last record. -/
inductive Due (D : Type)
  | nothing
  /-- The sample goes to the callback, and without one it counts as delivered. -/
  | sample (sample : Sample D) (outcome : Option SessionResult)
  | callback (sample : Sample D) (outcome : Option SessionResult)
  | copyFailed (outcome : Option SessionResult)
  | ending (result : SessionResult)

namespace Due

def after : Option SessionResult → Due D
  | none => .nothing
  | some result => .ending result

def of : Disposition D → Due D
  | .finish outcome => after outcome
  | .deliver s outcome => .sample s outcome

end Due

/-- `apply_configuration`, on the configuration alone. -/
def revise [DecidableEq D] (previous : Option (SensorConfiguration D))
    (configuration : SensorConfiguration D) : SensorConfiguration D :=
  match previous with
  | none => { configuration with revision := 1 }
  | some previous =>
    if Impl.sameCalibration previous.calibration configuration.calibration then
      { configuration with revision := previous.revision }
    else { configuration with revision := previous.revision + 1 }

/-- Where the program is in a session: `open` from the connection of the transport on. -/
inductive SessionPhase
  | closed | opening | open
  deriving DecidableEq, Repr

structure Serial (D : Type) where
  phase : SessionPhase := .closed
  rdt : RdtSequenceTracker := {}
  ft : FtSequenceTracker := {}
  lastDeliveryAt : TimePoint := 0
  configuration : Option (SensorConfiguration D) := none
  due : Due D := .nothing

namespace Serial

/-- The verdict on a record, and the observations of the trackers. -/
def judge (config : Config D) (g : Serial D) (record : RawRecord) (receivedAt : TimePoint) :
    Verdict :=
  recordVerdict config g.lastDeliveryAt receivedAt (g.rdt.observe record.rdtSequence).2.kind
    (g.ft.observe record.ftSequence).2 (classifyStatus record.status)

/-- What is reported of a record under a configuration. -/
def report [Double D] (config : Config D) (g : Serial D) (configuration : SensorConfiguration D)
    (record : RawRecord) (receivedAt : TimePoint) : Processed D where
  record
  receivedAt
  rdt := (g.rdt.observe record.rdtSequence).2
  ft := (g.ft.observe record.ftSequence).2
  rateLimited := (g.judge config record receivedAt).rateLimited
  converted :=
    if (g.judge config record receivedAt).deliver then
      some (makeSample configuration record receivedAt)
    else none

/-- The state after a record, of which the rest is due. -/
def hear [Double D] (config : Config D) (g : Serial D) (configuration : SensorConfiguration D)
    (record : RawRecord) (receivedAt : TimePoint) : Serial D :=
  { g with
    rdt := (g.rdt.observe record.rdtSequence).1
    ft := (g.ft.observe record.ftSequence).1
    due := .of (dispose configuration record receivedAt (g.judge config record receivedAt)) }

def deliver (g : Serial D) (sample : Sample D) (outcome : Option SessionResult) : Serial D :=
  { g with lastDeliveryAt := sample.receivedAt, due := .after outcome }

variable [DecidableEq D] [Double D]

/-- The next report; `none` if it is not one that the program makes there. -/
def step (config : Config D) (g : Serial D) : Event D → Option (Serial D)
  | .created _ => if g.phase = .closed then some { g with lastDeliveryAt := 0 } else none
  | .returned _ .bias => some { g with rdt := g.rdt.reset }
  | .sessionBegan _ =>
    match g.due, g.phase with
    | .nothing, .closed =>
      some { g with phase := .opening, rdt := g.rdt.reset, ft := g.ft.beginSession }
    | _, _ => none
  | .discovered _ configuration =>
    match g.due, g.phase with
    | .nothing, .opening =>
      some { g with configuration := some (revise g.configuration configuration) }
    | _, _ => none
  | .discoveryFailed _ =>
    match g.due, g.phase with
    | .nothing, .opening => some g
    | _, _ => none
  | .connected .. =>
    match g.due, g.phase, g.configuration with
    | .nothing, .opening, some _ => some { g with phase := .open }
    | _, _, _ => none
  | .processed _ x =>
    match g.due, g.phase, g.configuration with
    | .nothing, .open, some configuration =>
      if x = g.report config configuration x.record x.receivedAt then
        some (g.hear config configuration x.record x.receivedAt)
      else none
    | _, _, _ => none
  | .invoked _ sample =>
    match g.due with
    | .sample s outcome => if s = sample then some { g with due := .callback s outcome } else none
    | _ => none
  | .copyFailed _ =>
    match g.due with
    | .sample _ outcome => some { g with due := .copyFailed outcome }
    | _ => none
  | .callbackError _ =>
    match g.due with
    | .callback _ outcome | .copyFailed outcome =>
      some { g with due := .after (callbackFailureOutcome config outcome) }
    | _ => none
  | .delivered _ sample =>
    match g.due with
    | .sample s outcome | .callback s outcome =>
      if s = sample then some (g.deliver s outcome) else none
    | _ => none
  | .sessionEnded _ outcome =>
    match g.due with
    | .nothing =>
      -- the session ends for another reason than a record
      if g.phase = .closed ∨ outcome.result.ofRecord = true ∧
          (outcome.result = .sensorConfiguration → g.phase = .open) then none
      else some { g with phase := .closed }
    | .ending result =>
      if outcome.result = result ∧ outcome.message = "" then
        some { g with phase := .closed, due := .nothing }
      else none
    | _ => none
  | .published .. | .runEnded _ =>
    match g.due with
    | .nothing => some { g with phase := .closed }
    | _ => none
  | _ => some g

def run (config : Config D) (g : Serial D) (l : List (Event D)) : Option (Serial D) :=
  l.foldlM (step config) g

/-- The reports that the program makes or reads. -/
def heeds : Event D → Bool
  | .created _ | .returned _ .bias => true
  | e => e.owner.isSome

end Serial

variable {config : Config D} {w w' : World D} {t : Tid} {n k : Nat} {c : Choice D}
  {worker : Worker D} {r : RunNext D} {l l' : List (Event D)} {g g' : Serial D} {i i' : Impl D}

namespace Serial

theorem run_append [DecidableEq D] [Double D] : g.run config (l ++ l') = some g' ↔
    ∃ g₁, g.run config l = some g₁ ∧ g₁.run config l' = some g' := by
  simp [run, List.foldlM_append, Option.bind_eq_some_iff]

theorem run_nil [DecidableEq D] [Double D] : g.run config [] = some g := rfl

theorem run_single [DecidableEq D] [Double D] (e : Event D) :
    g.run config [e] = g.step config e := by
  simp [run]

theorem run_cons [DecidableEq D] [Double D] (e : Event D) (h : g.step config e = some g') :
    g.run config (e :: l) = g'.run config l := by
  simp [run, h]

theorem step_unheeded [DecidableEq D] [Double D] {e : Event D} (h : heeds e = false) :
    g.step config e = some g := by
  cases e with
  | returned t call => cases call <;> first | rfl | cases h
  | _ => first | rfl | cases h

theorem run_unheeded [DecidableEq D] [Double D] (h : ∀ e ∈ l, heeds e = false) :
    g.run config l = some g := by
  induction l with
  | nil => rfl
  | cons e l ih =>
    rw [run_cons e (step_unheeded (h e List.mem_cons_self))]
    exact ih fun e' he' => h e' (List.mem_cons_of_mem _ he')

/-! ## The program and the members -/

/-- The members that both have, but for the trackers. -/
structure Shares (g : Serial D) (i : Impl D) : Prop where
  configuration : i.health.sensorConfiguration = g.configuration
  lastDeliveryAt : i.lastDeliveryAt = g.lastDeliveryAt

/-- The trackers agree but for what the next session resets. -/
structure Loosely (g : Serial D) (i : Impl D) : Prop where
  rdt : i.rdtSequence.reset = g.rdt.reset
  ft : i.ftSequence.beginSession = g.ft.beginSession

/-- The program has reset its trackers for the session, the client has not. -/
structure Opens (g : Serial D) (i : Impl D) : Prop where
  rdt : i.rdtSequence.reset = g.rdt
  ft : i.ftSequence.beginSession = g.ft

structure Tracks (g : Serial D) (i : Impl D) : Prop where
  rdt : i.rdtSequence = g.rdt
  ft : i.ftSequence = g.ft

/-- The client has observed the record. -/
structure Observed (g : Serial D) (i : Impl D) (record : RawRecord) (rdt : SequenceObservation)
    (ft : FtSequenceKind) : Prop where
  rdt : g.rdt.observe record.rdtSequence = (i.rdtSequence, rdt)
  ft : g.ft.observe record.ftSequence = (i.ftSequence, ft)

def AtRecord (g : Serial D) (i : Impl D) : RecordPc D → Prop
  | .observe .. => g.Shares i ∧ g.Tracks i ∧ g.due = .nothing
  | .account record _ rdt ft => g.Shares i ∧ g.Observed i record rdt ft ∧ g.due = .nothing
  | .copyCallback sample outcome => g.Shares i ∧ g.Tracks i ∧ g.due = .sample sample outcome
  | .inCallback sample outcome => g.Shares i ∧ g.Tracks i ∧ g.due = .callback sample outcome
  | .callbackFailed _ outcome =>
    g.Shares i ∧ g.Tracks i ∧
      (g.due = .copyFailed outcome ∨ ∃ sample, g.due = .callback sample outcome)
  | .commit sample outcome =>
    g.Shares i ∧ g.Tracks i ∧ (g.due = .sample sample outcome ∨ g.due = .callback sample outcome)
  | .commitData sample outcome =>
    i.health.sensorConfiguration = g.configuration ∧ i.lastDeliveryAt = sample.receivedAt ∧
      g.Tracks i ∧ (g.due = .sample sample outcome ∨ g.due = .callback sample outcome)
  | .notifyFirst outcome | .notifyLifecycle outcome =>
    g.Shares i ∧ g.Tracks i ∧ g.due = .after outcome

def AtSession [DecidableEq D] (g : Serial D) (i : Impl D) : SessionPc D → Prop
  | .connecting | .checkBeforeDiscovery | .discover | .checkBeforeConnect | .connect =>
    g.phase = .opening ∧ g.Shares i ∧ g.Opens i ∧ g.due = .nothing
  | .apply configuration =>
    g.phase = .opening ∧
      g.configuration = some (revise i.health.sensorConfiguration configuration) ∧
      i.lastDeliveryAt = g.lastDeliveryAt ∧ g.Opens i ∧ g.due = .nothing
  | .discoverFailed _ => g.phase = .opening ∧ g.Shares i ∧ g.Loosely i ∧ g.due = .nothing
  | .command | .sendStart | .trackerReset =>
    g.phase = .open ∧ g.Shares i ∧ g.Opens i ∧ g.due = .nothing
  | .socketFailed _ => g.phase ≠ .closed ∧ g.Shares i ∧ g.Loosely i ∧ g.due = .nothing
  | .record p => g.phase = .open ∧ g.AtRecord i p
  | _ => g.phase = .open ∧ g.Shares i ∧ g.Tracks i ∧ g.due = .nothing

/-- What holds between two runs. -/
structure Rests (g : Serial D) (i : Impl D) : Prop where
  phase : g.phase = .closed
  configuration : i.health.sensorConfiguration = g.configuration
  loosely : g.Loosely i
  due : g.due = .nothing

def At [DecidableEq D] (g : Serial D) (i : Impl D) : RunPc D → Prop
  | .session p => g.AtSession i p
  | .unborn | .exited => g.Rests i
  | .top | .close (.session _) | .closeTransport (.session _) | .decide _ | .enterBackoff _
  | .backoffWait | .backoffBlock _ | .backoffAsleep _ =>
    g.phase = .closed ∧ g.Shares i ∧ g.Loosely i ∧ g.due = .nothing
  -- an exception has left the session as it was
  | _ => g.Shares i ∧ g.Loosely i ∧ g.due = .nothing

theorem Opens.loosely (h : g.Opens i) : g.Loosely i :=
  ⟨by rw [← h.rdt]; rfl, by rw [← h.ft]; rfl⟩

theorem Tracks.loosely (h : g.Tracks i) : g.Loosely i := ⟨by rw [h.rdt], by rw [h.ft]⟩

theorem send_unheeded {command : Command} {error : Option String} {events : List (Event D)}
    (h : i.send t command c = some (error, events)) : ∀ e ∈ events, heeds e = false := by
  unfold Impl.send at h
  split at h
  · cases h; simp
  · cases c <;> cases h <;> simp [heeds, Event.owner]

/-! ## One step of a worker -/

section
variable [DecidableEq D] [Double D]

/-- `handle_record` returns, and with an outcome the session ends. -/
theorem at_afterRecord {outcome : Option SessionResult} {events : List (Event D)}
    (hrun : g.run config events = some g') (hopen : g'.phase = .open) (hshares : g'.Shares i)
    (htracks : g'.Tracks i) (hdue : g'.due = .after outcome) :
    ∃ g₁, g.run config (afterRecord i worker n outcome events).events = some g₁ ∧
      g₁.At i (afterRecord i worker n outcome events).worker.pc := by
  cases outcome with
  | none => exact ⟨g', hrun, hopen, hshares, htracks, hdue⟩
  | some result =>
    refine ⟨{ g' with phase := .closed, due := .nothing }, run_append.mpr ⟨g', hrun, ?_⟩, rfl,
      ⟨hshares.1, hshares.2⟩, ⟨htracks.loosely.1, htracks.loosely.2⟩, rfl⟩
    rw [run_single]
    simp [step, hdue, Due.after]

theorem at_recordNext {v : Provenance D} {p : RecordPc D}
    (hnext : recordNext config w n c worker p = some r)
    (hsourced : Sourced w.impl v (.session (.record p))) (hopen : g.phase = .open)
    (h : g.AtRecord w.impl p) :
    ∃ g', g.run config r.events = some g' ∧ g'.At r.impl r.worker.pc := by
  cases p with
  | observe record receivedAt =>
    cases hnext
    obtain ⟨hshares, htracks, hdue⟩ := h
    refine ⟨g, run_nil, hopen, ⟨hshares.1, hshares.2⟩, ?_, hdue⟩
    constructor
    · rw [← htracks.rdt]
    · rw [← htracks.ft]
  | account record receivedAt rdt ft =>
    obtain ⟨hshares, hobserved, hdue⟩ := h
    obtain ⟨-, source, revision, -, hsource⟩ := hsourced
    simp only [recordNext] at hnext
    split at hnext
    · rename_i haccount
      simp [Impl.account, hsource] at haccount
    rename_i configuration verdict haccount
    obtain ⟨hconfiguration, rfl, rfl⟩ := account_some haccount
    have hverdict : w.impl.verdict config record receivedAt rdt ft =
        g.judge config record receivedAt := by
      simp only [judge, Impl.verdict, hobserved.rdt, hobserved.ft, hshares.lastDeliveryAt]
    have hstep : ∀ x : Processed D, x = g.report config configuration record receivedAt →
        g.run config [.processed n x] = some (g.hear config configuration record receivedAt) := by
      rintro x rfl
      rw [run_single]
      simp only [step, hdue, hopen, ← hshares.configuration, hconfiguration]
      exact if_pos rfl
    have hreport : ∀ converted, converted = (if (g.judge config record receivedAt).deliver then
          some (makeSample configuration record receivedAt) else none) →
        ({ record, receivedAt, rdt, ft
           rateLimited := (g.judge config record receivedAt).rateLimited
           converted } : Processed D) = g.report config configuration record receivedAt := by
      rintro converted rfl
      simp only [report, hobserved.rdt, hobserved.ft]
    have hshared : (g.hear config configuration record receivedAt).Shares
        (w.impl.accounted config record receivedAt rdt ft) := ⟨hshares.1, hshares.2⟩
    have htracked : (g.hear config configuration record receivedAt).Tracks
        (w.impl.accounted config record receivedAt rdt ft) := by
      constructor
      · simp only [hear, hobserved.rdt]; rfl
      · simp only [hear, hobserved.ft]; rfl
    rw [hverdict] at hnext
    split at hnext <;> cases hnext
    · rename_i outcome hdispose
      rw [afterRecord_impl]
      refine at_afterRecord (hstep _ (hreport _ rfl)) hopen hshared htracked ?_
      simp [hear, hdispose, Due.of]
    · rename_i sample outcome hdispose
      refine ⟨_, hstep _ (hreport _ rfl), hopen, hshared, htracked, ?_⟩
      simp [hear, hdispose, Due.of]
  | copyCallback sample outcome =>
    obtain ⟨hshares, htracks, hdue⟩ := h
    simp only [recordNext] at hnext
    (repeat' split at hnext) <;> cases hnext
    · exact ⟨g, run_nil, hopen, hshares, htracks, .inl hdue⟩
    · refine ⟨{ g with due := .callback sample outcome }, ?_, hopen, ⟨hshares.1, hshares.2⟩,
        ⟨htracks.1, htracks.2⟩, rfl⟩
      rw [run_single]
      simp [step, hdue]
    · refine ⟨{ g with due := .copyFailed outcome }, ?_, hopen, ⟨hshares.1, hshares.2⟩,
        ⟨htracks.1, htracks.2⟩, .inl rfl⟩
      rw [run_single]
      simp [step, hdue]
  | inCallback sample outcome =>
    obtain ⟨hshares, htracks, hdue⟩ := h
    simp only [recordNext] at hnext
    (repeat' split at hnext) <;> cases hnext
    · exact ⟨g, run_nil, hopen, hshares, htracks, .inr hdue⟩
    · exact ⟨g, run_nil, hopen, hshares, htracks, .inr ⟨sample, hdue⟩⟩
  | callbackFailed message outcome =>
    obtain ⟨hshares, htracks, hdue⟩ := h
    cases hnext
    rw [afterRecord_impl]
    have hrun : g.run config [.callbackError n] =
        some { g with due := .after (callbackFailureOutcome config outcome) } := by
      rw [run_single]
      rcases hdue with hdue | ⟨sample, hdue⟩ <;> simp [step, hdue]
    exact at_afterRecord hrun hopen ⟨hshares.1, hshares.2⟩ ⟨htracks.1, htracks.2⟩ rfl
  | commit sample outcome =>
    obtain ⟨hshares, htracks, hdue⟩ := h
    cases hnext
    exact ⟨g, run_nil, hopen, hshares.configuration, rfl, ⟨htracks.1, htracks.2⟩, hdue⟩
  | commitData sample outcome =>
    obtain ⟨hconfiguration, hlast, htracks, hdue⟩ := h
    cases hnext
    refine ⟨g.deliver sample outcome, ?_, hopen, ⟨hconfiguration, hlast⟩,
      ⟨htracks.1, htracks.2⟩, rfl⟩
    rw [run_single]
    rcases hdue with hdue | hdue <;> simp [step, hdue]
  | notifyFirst outcome =>
    obtain ⟨hshares, htracks, hdue⟩ := h
    cases hnext
    exact ⟨g, run_nil, hopen, ⟨hshares.1, hshares.2⟩, ⟨htracks.1, htracks.2⟩, hdue⟩
  | notifyLifecycle outcome =>
    obtain ⟨hshares, htracks, hdue⟩ := h
    cases hnext
    rw [afterRecord_impl]
    exact at_afterRecord run_nil hopen ⟨hshares.1, hshares.2⟩ ⟨htracks.1, htracks.2⟩ hdue

theorem run_send {command : Command} {error : Option String} {events : List (Event D)}
    (h : i.send t command c = some (error, events)) : g.run config events = some g :=
  run_unheeded (send_unheeded h)

theorem run_closed (i : Impl D) : g.run config i.closedEvents = some g := by
  apply run_unheeded
  intro e he
  unfold Impl.closedEvents at he
  split at he
  · cases he
  · cases List.mem_singleton.mp he; rfl

/-- A session ends for another reason than a record. -/
theorem at_endSession {result : SessionResult} {message : String} (hphase : g.phase ≠ .closed)
    (hshares : g.Shares i) (hloosely : g.Loosely i) (hdue : g.due = .nothing)
    (hresult : result.ofRecord = true → result = .sensorConfiguration ∧ g.phase = .opening) :
    ∃ g', g.run config (endSession i worker n result message).events = some g' ∧
      g'.At i (endSession i worker n result message).worker.pc := by
  refine ⟨{ g with phase := .closed }, ?_, rfl, ⟨hshares.1, hshares.2⟩,
    ⟨hloosely.1, hloosely.2⟩, hdue⟩
  show g.run config [.sessionEnded n _] = _
  rw [run_single]
  simp only [step, hdue]
  apply if_neg
  rintro (hclosed | ⟨hrecord, hopen⟩)
  · exact hphase hclosed
  · obtain ⟨rfl, hopening⟩ := hresult hrecord
    have hboth := hopening.symm.trans (hopen rfl)
    cases hboth

omit [Double D] in
theorem applyConfiguration_revise (i : Impl D) (configuration : SensorConfiguration D) :
    let i' := i.applyConfiguration configuration
    i'.health.sensorConfiguration = some (revise i.health.sensorConfiguration configuration) ∧
      i'.lastDeliveryAt = i.lastDeliveryAt ∧ i'.rdtSequence = i.rdtSequence ∧
      i'.ftSequence = i.ftSequence := by
  cases hprevious : i.health.sensorConfiguration with
  | none => simp [Impl.applyConfiguration, revise, hprevious]
  | some previous =>
    simp only [Impl.applyConfiguration, revise, hprevious]
    split <;> exact ⟨rfl, rfl, rfl, rfl⟩

theorem at_sessionNext {v : Provenance D} {p : SessionPc D}
    (hnext : sessionNext config w n c worker p = some r)
    (hsourced : Sourced w.impl v (.session p)) (h : g.AtSession w.impl p) :
    ∃ g', g.run config r.events = some g' ∧ g'.At r.impl r.worker.pc := by
  cases p with
  | record q => exact at_recordNext hnext hsourced h.1 h.2
  | apply configuration =>
    obtain ⟨hphase, hconfiguration, hlast, hopens, hdue⟩ := h
    cases hnext
    obtain ⟨hrevised, hdelivery, hrdt, hft⟩ := applyConfiguration_revise w.impl configuration
    exact ⟨g, run_nil, hphase, ⟨hrevised.trans hconfiguration.symm, hdelivery.trans hlast⟩,
      ⟨by rw [hrdt, hopens.rdt], by rw [hft, hopens.ft]⟩, hdue⟩
  | discover =>
    obtain ⟨hphase, hshares, hopens, hdue⟩ := h
    have hfound : ∀ configuration, ∃ g',
        g.run config [.discovered n configuration] = some g' ∧
          g'.At w.impl (.session (.apply configuration)) := by
      intro configuration
      refine ⟨{ g with configuration := some (revise g.configuration configuration) }, ?_, hphase,
        ?_, hshares.2, ⟨hopens.1, hopens.2⟩, hdue⟩
      · rw [run_single]
        simp only [step, hdue, hphase]
      · rw [hshares.configuration]
    simp only [sessionNext] at hnext
    (repeat' split at hnext) <;> cases hnext
    · exact hfound _
    · exact hfound _
    · refine ⟨g, ?_, hphase, hshares, hopens.loosely, hdue⟩
      rw [run_single]
      simp only [step, hdue, hphase]
  | discoverFailed message =>
    obtain ⟨hphase, hshares, hloosely, hdue⟩ := h
    cases hnext
    refine at_endSession (by simp [hphase]) hshares hloosely hdue ?_
    split <;> simp [SessionResult.ofRecord, hphase]
  | connect =>
    obtain ⟨hphase, hshares, hopens, hdue⟩ := h
    simp only [sessionNext] at hnext
    split at hnext <;> cases hnext
    · refine ⟨{ g with phase := .open }, run_append.mpr ⟨g, run_closed _, ?_⟩, rfl,
        ⟨hshares.1, hshares.2⟩, ⟨hopens.1, hopens.2⟩, hdue⟩
      obtain ⟨-, source, revision, -, hsource⟩ := hsourced
      rw [run_single]
      simp only [step, hdue, hphase, ← hshares.configuration, hsource]
    · exact ⟨g, run_nil, by simp [hphase], hshares, hopens.loosely, hdue⟩
  | connecting =>
    obtain ⟨hphase, hshares, hopens, hdue⟩ := h
    cases hnext
    exact ⟨g, run_nil, hphase, ⟨hshares.1, hshares.2⟩, ⟨hopens.1, hopens.2⟩, hdue⟩
  | checkBeforeDiscovery | checkBeforeConnect | command =>
    obtain ⟨hphase, hshares, hopens, hdue⟩ := h
    simp only [sessionNext] at hnext
    split at hnext <;> cases hnext
    · exact at_endSession (by simp [hphase]) hshares hopens.loosely hdue
        (by simp [SessionResult.ofRecord])
    · exact ⟨g, run_nil, hphase, hshares, hopens, hdue⟩
  | sendStart =>
    obtain ⟨hphase, hshares, hopens, hdue⟩ := h
    simp only [sessionNext] at hnext
    split at hnext <;> cases hnext
    · exact ⟨g, run_send ‹_›, hphase, ⟨hshares.1, hshares.2⟩, ⟨hopens.1, hopens.2⟩, hdue⟩
    · exact ⟨g, run_send ‹_›, by simp [hphase], hshares, hopens.loosely, hdue⟩
  | trackerReset =>
    obtain ⟨hphase, hshares, hopens, hdue⟩ := h
    cases hnext
    exact ⟨g, run_nil, hphase, ⟨hshares.1, hshares.2⟩, ⟨hopens.1, hopens.2⟩, hdue⟩
  | socketFailed message =>
    obtain ⟨hphase, hshares, hloosely, hdue⟩ := h
    cases hnext
    refine at_endSession hphase hshares hloosely hdue ?_
    split <;> simp [SessionResult.ofRecord]
  | timedOut =>
    obtain ⟨hphase, hshares, htracks, hdue⟩ := h
    simp only [sessionNext] at hnext
    split at hnext <;> cases hnext
    · exact at_endSession (by simp [hphase]) hshares htracks.loosely hdue
        (by simp [SessionResult.ofRecord])
    · exact at_endSession (i := w.impl.countTimeout) (by simp [hphase]) ⟨hshares.1, hshares.2⟩
        ⟨htracks.loosely.1, htracks.loosely.2⟩ hdue (by simp [SessionResult.ofRecord])
  | malformed =>
    obtain ⟨hphase, hshares, htracks, hdue⟩ := h
    simp only [sessionNext] at hnext
    split at hnext <;> cases hnext
    · exact at_endSession (i := w.impl.countMalformed) (by simp [hphase]) ⟨hshares.1, hshares.2⟩
        ⟨htracks.loosely.1, htracks.loosely.2⟩ hdue (by simp [SessionResult.ofRecord])
    · exact ⟨g, run_nil, hphase, ⟨hshares.1, hshares.2⟩, ⟨htracks.1, htracks.2⟩, hdue⟩
  | valid record receivedAt =>
    obtain ⟨hphase, hshares, htracks, hdue⟩ := h
    simp only [sessionNext] at hnext
    split at hnext <;> cases hnext
    · exact ⟨g, run_nil, ⟨hshares.1, hshares.2⟩, ⟨htracks.loosely.1, htracks.loosely.2⟩, hdue⟩
    · exact ⟨g, run_nil, hphase, ⟨hshares.1, hshares.2⟩, ⟨htracks.1, htracks.2⟩, hdue⟩
  | firstDeadline =>
    obtain ⟨hphase, hshares, htracks, hdue⟩ := h
    simp only [sessionNext] at hnext
    split at hnext <;> cases hnext
    · exact ⟨g, run_nil, hshares, htracks.loosely, hdue⟩
    · exact ⟨g, run_nil, hphase, hshares, htracks, hdue⟩
  | loop | received datagram =>
    obtain ⟨hphase, hshares, htracks, hdue⟩ := h
    simp only [sessionNext] at hnext
    (repeat' split at hnext) <;> cases hnext <;>
      first
      | exact at_endSession (by simp [hphase]) hshares htracks.loosely hdue
          (by simp [SessionResult.ofRecord])
      | exact ⟨g, run_nil, hphase, hshares, htracks, hdue⟩
  | pollCheck =>
    cases hnext
    dsimp only
    split <;> exact ⟨g, run_nil, h⟩
  | _ =>
    obtain ⟨hphase, hshares, htracks, hdue⟩ := h
    simp only [sessionNext] at hnext
    (repeat' split at hnext) <;> cases hnext <;>
      first
      | exact ⟨g, run_nil, hphase, hshares, htracks, hdue⟩
      | exact ⟨g, run_nil, by simp [hphase], hshares, htracks.loosely, hdue⟩

theorem at_runNext {v : Provenance D} {p : RunPc D}
    (hnext : runNext config w n c worker p = some r) (hsourced : Sourced w.impl v p)
    (h : g.At w.impl p) : ∃ g', g.run config r.events = some g' ∧ g'.At r.impl r.worker.pc := by
  cases p with
  | session q => exact at_sessionNext hnext hsourced h
  | unborn | exited => cases hnext
  | top =>
    obtain ⟨hphase, hshares, hloosely, hdue⟩ := h
    simp only [runNext] at hnext
    split at hnext <;> cases hnext
    · exact ⟨g, run_nil, hshares, hloosely, hdue⟩
    · refine ⟨{ g with phase := .opening, rdt := g.rdt.reset, ft := g.ft.beginSession }, ?_, rfl,
        ⟨hshares.1, hshares.2⟩, ⟨hloosely.1, hloosely.2⟩, hdue⟩
      rw [run_single]
      simp only [step, hdue, hphase]
  | close context =>
    simp only [runNext] at hnext
    cases context with
    | session outcome =>
      obtain ⟨hphase, hshares, hloosely, hdue⟩ := h
      (repeat' split at hnext) <;> cases hnext
      · exact ⟨g, run_send ‹_›, hphase, ⟨hshares.1, hshares.2⟩, ⟨hloosely.1, hloosely.2⟩, hdue⟩
      · exact ⟨g, run_nil, hphase, hshares, hloosely, hdue⟩
    | finish =>
      obtain ⟨hshares, hloosely, hdue⟩ := h
      (repeat' split at hnext) <;> cases hnext
      · exact ⟨g, run_send ‹_›, ⟨hshares.1, hshares.2⟩, ⟨hloosely.1, hloosely.2⟩, hdue⟩
      · exact ⟨g, run_nil, hshares, hloosely, hdue⟩
  | closeTransport context =>
    cases hnext
    cases context with
    | session outcome =>
      obtain ⟨hphase, hshares, hloosely, hdue⟩ := h
      exact ⟨g, run_closed _, hphase, ⟨hshares.1, hshares.2⟩, ⟨hloosely.1, hloosely.2⟩, hdue⟩
    | finish =>
      obtain ⟨hshares, hloosely, hdue⟩ := h
      exact ⟨g, run_closed _, ⟨hshares.1, hshares.2⟩, ⟨hloosely.1, hloosely.2⟩, hdue⟩
  | publish code message =>
    obtain ⟨hshares, hloosely, hdue⟩ := h
    cases hnext
    have hkept : (w.impl.publish code message).health.sensorConfiguration =
          w.impl.health.sensorConfiguration ∧
        (w.impl.publish code message).lastDeliveryAt = w.impl.lastDeliveryAt ∧
        (w.impl.publish code message).rdtSequence = w.impl.rdtSequence ∧
        (w.impl.publish code message).ftSequence = w.impl.ftSequence := by
      unfold Impl.publish
      split <;> exact ⟨rfl, rfl, rfl, rfl⟩
    obtain ⟨hconfiguration, hlast, hrdt, hft⟩ := hkept
    have hshares : g.Shares (w.impl.publish code message) :=
      ⟨hconfiguration.trans hshares.1, hlast.trans hshares.2⟩
    have hloosely : g.Loosely (w.impl.publish code message) :=
      ⟨by rw [hrdt]; exact hloosely.1, by rw [hft]; exact hloosely.2⟩
    dsimp only
    split
    · exact ⟨g, run_nil, hshares, hloosely, hdue⟩
    · refine ⟨{ g with phase := .closed }, ?_, ⟨hshares.1, hshares.2⟩,
        ⟨hloosely.1, hloosely.2⟩, hdue⟩
      rw [run_single]
      simp only [step, hdue]
  | raised message | finalFaulted =>
    cases hnext
    dsimp only
    split <;> exact ⟨g, run_nil, h⟩
  | finalNotifyLifecycle =>
    obtain ⟨hshares, hloosely, hdue⟩ := h
    cases hnext
    refine ⟨{ g with phase := .closed }, ?_, rfl, hshares.configuration,
      ⟨hloosely.1, hloosely.2⟩, hdue⟩
    rw [run_single]
    simp only [step, hdue]
  | decide | enterBackoff | backoffWait | backoffBlock | backoffAsleep =>
    obtain ⟨hphase, hshares, hloosely, hdue⟩ := h
    simp only [runNext] at hnext
    (repeat' split at hnext) <;> cases hnext <;>
      first
      | exact ⟨g, run_nil, hphase, ⟨hshares.1, hshares.2⟩, ⟨hloosely.1, hloosely.2⟩, hdue⟩
      | exact ⟨g, run_nil, ⟨hshares.1, hshares.2⟩, ⟨hloosely.1, hloosely.2⟩, hdue⟩
  | _ =>
    obtain ⟨hshares, hloosely, hdue⟩ := h
    cases hnext
    exact ⟨g, run_nil, ⟨hshares.1, hshares.2⟩, ⟨hloosely.1, hloosely.2⟩, hdue⟩

/-! ## One step of an entry point -/

omit [DecidableEq D] [Double D] in
/-- The entry points report nothing that the program heeds, but for the end of `bias` and the
creation of a worker. -/
theorem apiNext_reports {p : ApiPc D} {r : ApiNext D} (hnext : apiNext w t c p = some r) :
    (∀ e ∈ r.events, heeds e = false) ∧ r.spawn = false ∧ p ≠ .bias .reset ∨
      p = .bias .reset ∧ r.events = [.returned t .bias] ∧ r.spawn = false ∨
      r.events = [.created w.created] ∧ r.spawn = true ∧ p ≠ .bias .reset := by
  cases apiNext_step hnext with
  | stopCommand _ hsend | biasSent hsend | biasRestarted hsend =>
    exact .inl ⟨send_unheeded hsend, rfl, by simp⟩
  | biasFailed hsend | biasRestartFailed hsend =>
    refine .inl ⟨fun e he => ?_, rfl, by simp⟩
    rcases List.mem_append.mp he with he | he
    · exact send_unheeded hsend e he
    · cases List.mem_singleton.mp he; rfl
  | biasReset => exact .inr (.inl ⟨rfl, rfl, rfl⟩)
  | _ => simp [heeds, Event.owner]

end

/-- The members that the program has are the same, but for a reset of the RDT tracker. -/
structure Aside (reset : Bool) (i i' : Impl D) : Prop where
  configuration : i'.health.sensorConfiguration = i.health.sensorConfiguration
  lastDeliveryAt : i'.lastDeliveryAt = i.lastDeliveryAt
  rdt : i'.rdtSequence = if reset then i.rdtSequence.reset else i.rdtSequence
  ft : i'.ftSequence = i.ftSequence

/-- The program beside such a step. -/
def aside (g : Serial D) (reset : Bool) : Serial D :=
  { g with rdt := if reset then g.rdt.reset else g.rdt }

variable {reset : Bool}

theorem Shares.aside (h : g.Shares i) (ha : Aside reset i i') : (g.aside reset).Shares i' :=
  ⟨ha.configuration.trans h.configuration, ha.lastDeliveryAt.trans h.lastDeliveryAt⟩

theorem Loosely.aside (h : g.Loosely i) (hrdt : i'.rdtSequence =
      if reset then i.rdtSequence.reset else i.rdtSequence) (hft : i'.ftSequence = i.ftSequence) :
    (g.aside reset).Loosely i' := by
  refine ⟨?_, by rw [hft, h.ft]; rfl⟩
  rw [hrdt]
  cases reset
  · exact h.rdt
  · exact congrArg RdtSequenceTracker.reset h.rdt

theorem Opens.aside (h : g.Opens i) (ha : Aside reset i i') : (g.aside reset).Opens i' := by
  refine ⟨?_, by rw [ha.ft, h.ft]; rfl⟩
  rw [ha.rdt]
  cases reset
  · exact h.rdt
  · exact congrArg RdtSequenceTracker.reset h.rdt

theorem Tracks.aside (h : g.Tracks i) (ha : Aside reset i i') : (g.aside reset).Tracks i' := by
  refine ⟨?_, by rw [ha.ft, h.ft]; rfl⟩
  rw [ha.rdt]
  cases reset
  · exact h.rdt
  · exact congrArg RdtSequenceTracker.reset h.rdt

theorem Rests.aside (h : g.Rests i)
    (hconfiguration : i'.health.sensorConfiguration = i.health.sensorConfiguration)
    (hrdt : i'.rdtSequence = if reset then i.rdtSequence.reset else i.rdtSequence)
    (hft : i'.ftSequence = i.ftSequence) : (g.aside reset).Rests i' :=
  ⟨h.phase, hconfiguration.trans h.configuration, h.loosely.aside hrdt hft, h.due⟩

/-- Between the sections of `handle_record` that hold `record_mutex_` there is no reset. -/
theorem At.aside [DecidableEq D] {p : RunPc D} (h : g.At i p) (ha : Aside reset i i')
    (hfree : reset = true → .record ∉ p.held) : (g.aside reset).At i' p := by
  cases p with
  | session p =>
    cases p with
    | record p =>
      obtain ⟨hopen, h⟩ := h
      refine ⟨hopen, ?_⟩
      cases p with
      | account record receivedAt rdt ft =>
        obtain ⟨hshares, hobserved, hdue⟩ := h
        obtain rfl : reset = false :=
          eq_false_of_ne_true fun hreset => hfree hreset (List.mem_singleton_self _)
        refine ⟨hshares.aside ha, ⟨?_, ?_⟩, hdue⟩
        · rw [ha.rdt]; exact hobserved.rdt
        · rw [ha.ft]; exact hobserved.ft
      | commitData sample outcome =>
        obtain ⟨hconfiguration, hlast, htracks, hdue⟩ := h
        exact ⟨ha.configuration.trans hconfiguration, ha.lastDeliveryAt.trans hlast,
          htracks.aside ha, hdue⟩
      | _ =>
        obtain ⟨hshares, htracks, hdue⟩ := h
        exact ⟨hshares.aside ha, htracks.aside ha, hdue⟩
    | apply configuration =>
      obtain ⟨hphase, hconfiguration, hlast, hopens, hdue⟩ := h
      refine ⟨hphase, ?_, ha.lastDeliveryAt.trans hlast, hopens.aside ha, hdue⟩
      rw [ha.configuration]
      exact hconfiguration
    | connecting | checkBeforeDiscovery | discover | checkBeforeConnect | connect | command
    | sendStart | trackerReset =>
      obtain ⟨hphase, hshares, hopens, hdue⟩ := h
      exact ⟨hphase, hshares.aside ha, hopens.aside ha, hdue⟩
    | discoverFailed | socketFailed =>
      obtain ⟨hphase, hshares, hloosely, hdue⟩ := h
      exact ⟨hphase, hshares.aside ha, hloosely.aside ha.rdt ha.ft, hdue⟩
    | _ =>
      obtain ⟨hphase, hshares, htracks, hdue⟩ := h
      exact ⟨hphase, hshares.aside ha, htracks.aside ha, hdue⟩
  | unborn | exited => exact Rests.aside h ha.configuration ha.rdt ha.ft
  | top | decide | enterBackoff | backoffWait | backoffBlock | backoffAsleep =>
    obtain ⟨hphase, hshares, hloosely, hdue⟩ := h
    exact ⟨hphase, hshares.aside ha, hloosely.aside ha.rdt ha.ft, hdue⟩
  | close context | closeTransport context =>
    cases context with
    | session outcome =>
      obtain ⟨hphase, hshares, hloosely, hdue⟩ := h
      exact ⟨hphase, hshares.aside ha, hloosely.aside ha.rdt ha.ft, hdue⟩
    | finish =>
      obtain ⟨hshares, hloosely, hdue⟩ := h
      exact ⟨hshares.aside ha, hloosely.aside ha.rdt ha.ft, hdue⟩
  | _ =>
    obtain ⟨hshares, hloosely, hdue⟩ := h
    exact ⟨hshares.aside ha, hloosely.aside ha.rdt ha.ft, hdue⟩

end Serial

/-! ## Runs -/

/-- The program where the client is. -/
structure Serialised [DecidableEq D] (w : World D) (g : Serial D) : Prop where
  rests : (∀ n, ¬ w.executing n) → g.Rests w.impl
  runs : ∀ n, w.executing n → g.At w.impl (w.workers n).pc

section
variable [DecidableEq D] [Double D]

omit [Double D] in
/-- A step that creates no worker. -/
theorem Serialised.aside (h : Serialised w g) (reset : Bool)
    (hworkers : ∀ n, w'.workers n = w.workers n)
    (hconfiguration : w'.impl.health.sensorConfiguration = w.impl.health.sensorConfiguration)
    (hrdt : w'.impl.rdtSequence =
      if reset then w.impl.rdtSequence.reset else w.impl.rdtSequence)
    (hft : w'.impl.ftSequence = w.impl.ftSequence)
    (hdelivery : ∀ n, w.executing n → w'.impl.lastDeliveryAt = w.impl.lastDeliveryAt)
    (hfree : reset = true → ∀ n, .record ∉ (w.workers n).pc.held) :
    Serialised w' (g.aside reset) := by
  have hexecuting : ∀ n, w'.executing n ↔ w.executing n := fun n => by
    simp only [World.executing, hworkers]
  refine ⟨fun hnone => ?_, fun n hn => ?_⟩
  · exact (h.rests fun n hn => hnone n ((hexecuting n).mpr hn)).aside hconfiguration hrdt hft
  · rw [hworkers]
    have hn := (hexecuting n).mp hn
    exact (h.runs n hn).aside ⟨hconfiguration, hdelivery n hn, hrdt, hft⟩
      fun hreset => hfree hreset n

theorem Serialised.move (h : Serialised w g) (hv : Reachable config w l)
    (hm : Moved config w w' l') : ∃ g', g.run config l' = some g' ∧ Serialised w' g' := by
  have ho := hv.orderly
  cases hm with
  | tick | spurious =>
    exact ⟨g, rfl, h.aside false (fun _ => rfl) rfl rfl rfl (fun _ _ => rfl)
      fun h => by cases h⟩
  | call t call hidle hmay =>
    refine ⟨g, Serial.run_unheeded (by simp [Serial.heeds, Event.owner]), ?_⟩
    exact h.aside false (fun _ => rfl) rfl rfl rfl (fun _ _ => rfl) fun h => by cases h
  | run n c r hnext htake =>
    have hn := executing_of_next hnext
    obtain ⟨g', hrun, hat⟩ := Serial.at_runNext hnext (hv.provenanced.sourced n) (h.runs n hn)
    have hself : ((w.applyRun n r).workers n) = r.worker := by
      rw [World.applyRun_workers, Function.update_self]
    refine ⟨g', hrun, fun hnone => ?_, fun k hk => ?_⟩
    · have hexited := hnone n
      rw [World.executing, hself] at hexited
      cases hpc : r.worker.pc with
      | unborn | exited => rw [hpc] at hat; exact hat
      | _ => rw [hpc] at hexited; exact absurd rfl hexited
    · by_cases hkn : k = n
      · subst hkn
        rw [hself]
        exact hat
      · have hsame : (w.applyRun n r).workers k = w.workers k := by
          rw [World.applyRun_workers, Function.update_of_ne hkn]
        rw [World.executing, hsame] at hk
        exact absurd (ho.executing_unique hn hk) hkn
  | api t c r hnext htake =>
    have hlife := congrArg (·.sensorConfiguration) (apiNext_lifetime hnext (hv.savedLifetime t)).1
    have hconfiguration :
        r.impl.health.sensorConfiguration = w.impl.health.sensorConfiguration := hlife
    obtain ⟨hft, hrdt⟩ := apiNext_trackers hnext
    have hworkers : r.spawn = false → ∀ n, (w.applyApi config t r).workers n = w.workers n :=
      fun hspawn n => by simp [World.applyApi, hspawn]
    have hdelivery : ∀ n, w.executing n → r.impl.lastDeliveryAt = w.impl.lastDeliveryAt :=
      fun n hn => (ho.apiNext_runData hnext hn).lastDeliveryAt
    rcases Serial.apiNext_reports hnext with ⟨hunheeded, hspawn, hne⟩ | ⟨hpc, hevents, hspawn⟩ |
      ⟨hevents, hspawn, hne⟩
    · have hrdt := hrdt.resolve_right fun h => hne h.1
      exact ⟨g, Serial.run_unheeded hunheeded, h.aside false (hworkers hspawn)
        hconfiguration hrdt hft hdelivery fun h => by cases h⟩
    · refine ⟨g.aside true, by rw [hevents, Serial.run_single]; rfl, ?_⟩
      refine h.aside true (hworkers hspawn) hconfiguration ?_ hft hdelivery
        fun _ n hheld => ?_
      · rw [hpc] at hnext
        cases hnext
        rfl
      · -- `bias` holds `record_mutex_`
        have ht : w.locks .record = some t := (ho.locked _ t).mpr (.inl (by
          rw [hpc]
          simp [ApiPc.held, BiasPc.held]))
        have hn := (ho.locked _ (.worker n)).mpr (.inr hheld)
        obtain rfl := Option.some.inj (ht.symm.trans hn)
        have hcallback := ho.nested.inCallback n (by simp [hpc])
        rw [show (w.workers n).pc.held = [] from workerHeld_of_inCallback hcallback] at hheld
        cases hheld
    · have hlaunch := (apiNext_spawn hnext hspawn).1
      have hrest := ho.life.resting t (role_of_cleared (cleared_of_launching hlaunch))
      have hnone := ho.life.not_executing hrest.1 hrest.2
      have hrests := h.rests hnone
      refine ⟨{ g with lastDeliveryAt := 0 }, ?_, ?_⟩
      · rw [hevents, Serial.run_single]
        exact if_pos hrests.phase
      have hrdt := hrdt.resolve_right fun h => hne h.1
      have hloosely : g.Loosely r.impl :=
        ⟨by rw [hrdt]; exact hrests.loosely.rdt, by rw [hft]; exact hrests.loosely.ft⟩
      refine ⟨fun hidle => ⟨hrests.phase, hconfiguration.trans hrests.configuration,
        ⟨hloosely.1, hloosely.2⟩, hrests.due⟩, fun n hn => ?_⟩
      rcases ho.applyApi_worker config t r n with hsame | ⟨hunborn, htop⟩
      · rw [World.executing, hsame] at hn
        exact absurd hn (hnone n)
      · rw [htop]
        exact ⟨hrests.phase, ⟨hconfiguration.trans hrests.configuration,
          (hv.launch.created hnext hunborn htop).2⟩, ⟨hloosely.1, hloosely.2⟩, hrests.due⟩

theorem Reachable.serialised (h : Reachable config w l) :
    ∃ g, Serial.run config {} l = some g ∧ Serialised w g := by
  refine h.induction (I := fun v k => ∃ g, Serial.run config {} k = some g ∧ Serialised v g) ?_ ?_
  · intro clock
    exact ⟨{}, rfl, fun _ => ⟨rfl, rfl, ⟨rfl, rfl⟩, rfl⟩, fun n hn => by cases hn⟩
  · intro v v' k k' hv hi hm
    obtain ⟨g, hrun, hg⟩ := hi
    obtain ⟨g', hrun', hg'⟩ := hg.move hv hm
    exact ⟨g', Serial.run_append.mpr ⟨g, hrun, hrun'⟩, hg'⟩

end

/-- The worker is at the top of its receive loop. -/
def RunPc.loops : RunPc D → Bool
  | .session .loop => true
  | _ => false

theorem RunPc.loops_iff {p : RunPc D} : p.loops = true ↔ p = .session .loop := by
  unfold RunPc.loops
  split <;> simp_all

end NetFT.Client
