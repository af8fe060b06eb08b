import NetFT.Client.Backoff
import NetFT.Client.Provenance

/-! Runs under `FailStop`. A run is one session, whose outcome decides what is published. What a
worker has reported is kept in its log (`RunLog`), and its position says what the log looks like
(`OneSession`). -/

namespace NetFT.Client
open Detail Library

variable {D : Type}

/-! ## The log of a run -/

/-- What a worker has reported of its run. -/
structure RunLog (D : Type) where
  /-- How many sessions it has begun. -/
  began : Nat := 0
  outcomes : List SessionOutcome := []
  published : List FaultCode := []
  /-- The last record, and whether the callback has failed on it. -/
  last : Option (Processed D × Bool) := none

namespace RunLog

def read (n : Nat) (g : RunLog D) : Event D → RunLog D
  | .sessionBegan k => if k = n then { g with began := g.began + 1 } else g
  | .sessionEnded k outcome => if k = n then { g with outcomes := g.outcomes ++ [outcome] } else g
  | .published k code => if k = n then { g with published := g.published ++ [code] } else g
  | .processed k x => if k = n then { g with last := some (x, false) } else g
  | .callbackError k => if k = n then { g with last := g.last.map fun y => (y.1, true) } else g
  | _ => g

end RunLog

def runLog (n : Nat) (l : List (Event D)) : RunLog D := l.foldl (RunLog.read n) {}

/-- What there is to complain about in a record, the most important first. -/
def complaints (x : Processed D) (callbackFailed : Bool) : List SessionResult :=
  (if classifyStatus x.record.status = .error then [.seriousStatus] else []) ++
    (if x.ft = .stall then [.ftStall] else []) ++ (if x.ft = .backward then [.ftBackward] else []) ++
    if callbackFailed then [.callback] else []

/-- The outcome that the last record asks for. -/
def RunLog.selected (g : RunLog D) : Option SessionResult :=
  g.last.bind fun y => (complaints y.1 y.2).head?

/-- The result is one that a record asks for. -/
def SessionResult.complaint (result : SessionResult) : Option SessionResult :=
  if result = .seriousStatus ∨ result = .ftStall ∨ result = .ftBackward ∨ result = .callback then
    some result
  else none

variable {config : Config D} {w w' : World D} {t : Tid} {n k : Nat} {c : Choice D}
  {worker : Worker D} {r : RunNext D} {l l' : List (Event D)} {g : RunLog D}
  {v : Provenance D}

theorem runLog_append (n : Nat) (l l' : List (Event D)) :
    runLog n (l ++ l') = l'.foldl (RunLog.read n) (runLog n l) := List.foldl_append

theorem RunLog.foldl_other {l : List (Event D)} (h : ∀ e ∈ l, e.owner ≠ some n) (g : RunLog D) :
    l.foldl (RunLog.read n) g = g := by
  induction l generalizing g with
  | nil => rfl
  | cons e l ih =>
    have hsame : g.read n e = g := by
      have he := h e List.mem_cons_self
      cases e <;> simp_all [RunLog.read, Event.owner]
    rw [List.foldl_cons, hsame]
    exact ih (fun e' he' => h e' (List.mem_cons_of_mem _ he')) g

theorem RunLog.foldl_published {l : List (Event D)} (h : ∀ e ∈ l, ∀ code, e ≠ .published n code)
    (g : RunLog D) : (l.foldl (RunLog.read n) g).published = g.published := by
  induction l generalizing g with
  | nil => rfl
  | cons e l ih =>
    rw [List.foldl_cons, ih fun e' he' => h e' (List.mem_cons_of_mem _ he')]
    have he := h e List.mem_cons_self
    cases e <;> simp only [RunLog.read] <;> split <;> simp_all

theorem complaints_processed (x : Processed D) :
    (complaints x false).head? = statusOutcome (classifyStatus x.record.status) x.ft := by
  unfold complaints statusOutcome
  split
  · rfl
  · cases x.ft <;> rfl

theorem complaints_callback (x : Processed D) :
    (complaints x true).head? = some ((complaints x false).head?.getD .callback) := by
  unfold complaints
  split
  · rfl
  · cases x.ft <;> rfl

theorem complaint_of_selected {result : SessionResult} (h : g.selected = some result) :
    result.complaint = some result := by
  obtain ⟨⟨x, failed⟩, -, hx⟩ := Option.bind_eq_some_iff.mp h
  have hmem := List.mem_of_head? hx
  simp only [complaints, List.mem_append] at hmem
  refine if_pos ?_
  rcases hmem with ((hmem | hmem) | hmem) | hmem <;> split at hmem <;> simp_all

/-! ## The assumptions -/

/-- At the position, the deadline that is computed is representable, and the sample that is made has
finite axes. -/
def RunPc.Unexceptional [Double D] (config : Config D) (w : World D) (backoff : Rat) :
    RunPc D → Prop
  | .session .firstDeadline => checkedDeadline w.clock config.receiveTimeout ≠ none
  | .session (.valid _ receivedAt) => checkedDeadline receivedAt config.receiveTimeout ≠ none
  | .session (.record (.account record receivedAt ..)) => ∀ configuration,
    w.impl.health.sensorConfiguration = some configuration →
      finiteAxes (makeSample configuration record receivedAt) = true
  | .backoffWait => checkedDeadline w.clock backoff ≠ none
  | _ => True

/-- What is assumed of a step. -/
def Unexceptional [Double D] (config : Config D) (w : World D) : Action D → Prop
  | .run n _ => (w.workers n).pc.Unexceptional config w (w.workers n).backoff
  | _ => True

/-! ## One session -/

/-- The only session has begun, and its last record asks for the given outcome. -/
structure RunLog.Opened (g : RunLog D) (selected : Option SessionResult) : Prop where
  began : g.began = 1
  outcomes : g.outcomes = []
  published : g.published = []
  selected : g.selected = selected

/-- The only session has ended. -/
structure RunLog.Ended (g : RunLog D) (outcome : SessionOutcome) : Prop where
  began : g.began = 1
  outcomes : g.outcomes = [outcome]
  selected : g.selected = outcome.result.complaint

/-- The fault of a run that was one session. -/
def faultOf (outcome : SessionOutcome) : List FaultCode :=
  if outcome.result = .stopped then [] else [faultFor outcome.result]

/-- The run is over, or nearly. -/
def RunLog.Settled (g : RunLog D) : Prop :=
  g = {} ∨ ∃ outcome, g.Ended outcome ∧ g.published = faultOf outcome

/-- What the log of a worker looks like under `FailStop`. -/
def OneSession (g : RunLog D) : RunPc D → Prop
  | .unborn | .top => g = {}
  | .session (.record p) => g.Opened p.outcome ∧ match p with
    | .observe .. | .account .. => True
    | _ => ∃ x, g.last = some (x, false)
  | .session _ => g.Opened none
  | .close (.session outcome) | .closeTransport (.session outcome) | .decide outcome =>
    g.Ended outcome ∧ g.published = []
  | .publish code _ => ∃ outcome, g.Ended outcome ∧ g.published = [] ∧
    outcome.result ≠ .stopped ∧ code = faultFor outcome.result
  | .raised _ | .enterBackoff _ | .backoffWait | .backoffBlock _ | .backoffAsleep _ => False
  | _ => g.Settled

theorem OneSession.settled {p : RunPc D} (h : g.Settled) (hp : p.unlatched = false)
    (hunborn : p ≠ .unborn) (hpublish : ∀ code message, p ≠ .publish code message) :
    OneSession g p := by
  cases p with
  | close context | closeTransport context => cases context <;> first | exact h | cases hp
  | publish code message => exact absurd rfl (hpublish code message)
  | finalState => exact h
  | unborn => exact absurd rfl hunborn
  | _ => first | exact h | cases hp

theorem RunLog.Opened.end (h : g.Opened none) {outcome : SessionOutcome}
    (ho : outcome.result.complaint = none) :
    (g.read n (.sessionEnded n outcome)).Ended outcome ∧
      (g.read n (.sessionEnded n outcome)).published = [] := by
  simp only [RunLog.read, if_true]
  exact ⟨⟨h.began, by rw [h.outcomes]; rfl, h.selected.trans ho.symm⟩, h.published⟩

/-- `handle_record` returns. -/
theorem RunLog.Opened.afterRecord {i : Impl D} {outcome : Option SessionResult}
    {events : List (Event D)} (h : (events.foldl (RunLog.read n) g).Opened outcome) :
    OneSession ((Client.afterRecord i worker n outcome events).events.foldl (RunLog.read n) g)
      (Client.afterRecord i worker n outcome events).worker.pc := by
  cases outcome with
  | none => exact h
  | some result =>
    simp only [Client.afterRecord, endSession, List.foldl_append, List.foldl_cons, List.foldl_nil,
      RunLog.read, if_true]
    refine ⟨⟨h.began, by rw [h.outcomes]; rfl, h.selected.trans ?_⟩, h.published⟩
    exact (complaint_of_selected h.selected).symm

theorem failStop_verdict (hpolicy : config.recoveryPolicy = .failStop)
    (lastDeliveryAt receivedAt : TimePoint) (rdt : SequenceKind) (ft : FtSequenceKind)
    (severity : StatusSeverity) :
    (recordVerdict config lastDeliveryAt receivedAt rdt ft severity).outcome =
      statusOutcome severity ft := by
  simp [recordVerdict, hpolicy, apply_ite Verdict.outcome]

theorem recordNext_oneSession [Double D] (hpolicy : config.recoveryPolicy = .failStop)
    {p : RecordPc D} (hnext : recordNext config w n c worker p = some r)
    (hok : (RunPc.session (.record p)).Unexceptional config w worker.backoff)
    (hsourced : Sourced w.impl v (.session (.record p)))
    (h : OneSession g (.session (.record p))) :
    OneSession (r.events.foldl (RunLog.read n) g) r.worker.pc := by
  cases p with
  | observe record receivedAt => cases hnext; exact h
  | account record receivedAt rdt ft =>
    obtain ⟨-, _, _, -, hconfiguration⟩ := hsourced
    simp only [recordNext, Impl.account, hconfiguration] at hnext
    have hfinite := hok _ hconfiguration
    have hopen : ∀ x : Processed D, x.record = record → x.ft = ft →
        (g.read n (.processed n x)).Opened
          (w.impl.verdict config record receivedAt rdt ft).outcome := by
      rintro x rfl rfl
      simp only [RunLog.read, if_true]
      refine ⟨h.1.began, h.1.outcomes, h.1.published, ?_⟩
      rw [Impl.verdict, failStop_verdict hpolicy, ← complaints_processed]
      rfl
    split at hnext <;> cases hnext
    · rename_i hdispose
      rcases dispose_finish hdispose with ⟨-, rfl⟩ | ⟨-, hnot, -⟩
      · exact RunLog.Opened.afterRecord (hopen _ rfl rfl)
      · rw [hfinite] at hnot
        cases hnot
    · obtain ⟨-, rfl, -, rfl⟩ := dispose_deliver ‹_›
      refine ⟨hopen _ rfl rfl, ?_⟩
      simp only [List.foldl_cons, List.foldl_nil, RunLog.read, if_true]
      exact ⟨_, rfl⟩
  | callbackFailed message outcome =>
    cases hnext
    obtain ⟨hopen, x, hx⟩ := h
    refine RunLog.Opened.afterRecord ?_
    simp only [List.foldl_cons, List.foldl_nil, RunLog.read, if_true]
    refine ⟨hopen.began, hopen.outcomes, hopen.published, ?_⟩
    have hselected := hopen.selected
    simp only [RunLog.selected, hx, Option.map_some, Option.bind_some] at hselected ⊢
    rw [complaints_callback, hselected]
    cases outcome <;> simp [callbackFailureOutcome, hpolicy, RecordPc.outcome]
  | notifyLifecycle outcome => cases hnext; exact RunLog.Opened.afterRecord h.1
  | _ =>
    simp only [recordNext] at hnext
    (repeat' split at hnext) <;> cases hnext <;> exact h

theorem afterRecord_published {i : Impl D} {outcome : Option SessionResult}
    {events : List (Event D)} {code : FaultCode}
    (h : .published k code ∈ (afterRecord i worker n outcome events).events) :
    .published k code ∈ events := by
  cases outcome with
  | none => exact h
  | some result => simpa [afterRecord, endSession] using h

section
variable [DecidableEq D] [Double D]

theorem sessionNext_oneSession (hpolicy : config.recoveryPolicy = .failStop) {p : SessionPc D}
    (hnext : sessionNext config w n c worker p = some r)
    (hok : (RunPc.session p).Unexceptional config w worker.backoff)
    (hsourced : Sourced w.impl v (.session p)) (h : OneSession g (.session p)) :
    OneSession (r.events.foldl (RunLog.read n) g) r.worker.pc := by
  cases p with
  | record p => exact recordNext_oneSession hpolicy hnext hok hsourced h
  | firstDeadline =>
    simp only [sessionNext] at hnext
    split at hnext
    · exact absurd ‹_› hok
    · cases hnext; exact h
  | valid record receivedAt =>
    simp only [sessionNext] at hnext
    split at hnext
    · exact absurd ‹_› hok
    · cases hnext; exact ⟨h, trivial⟩
  | connect =>
    simp only [sessionNext] at hnext
    split at hnext <;> cases hnext
    · have hclosed : w.impl.closedEvents.foldl (RunLog.read n) g = g :=
        RunLog.foldl_other (fun e he => by simp [closedEvents_owner _ e he]) g
      rw [List.foldl_append, hclosed]
      exact h
    · exact h
  | sendStart =>
    simp only [sessionNext] at hnext
    split at hnext <;> cases hnext <;>
      rw [RunLog.foldl_other fun e he => by simp [send_owner ‹_› e he]] <;> exact h
  | discoverFailed message | socketFailed message =>
    cases hnext
    refine RunLog.Opened.end h ?_
    dsimp only
    split <;> rfl
  | pollCheck =>
    cases hnext
    dsimp only
    split <;> exact h
  | _ =>
    simp only [sessionNext] at hnext
    (repeat' split at hnext) <;> cases hnext <;>
      first | exact h | exact RunLog.Opened.end h rfl

/-- A worker under `FailStop`. -/
theorem runNext_oneSession (hpolicy : config.recoveryPolicy = .failStop) {p : RunPc D}
    (hnext : runNext config w n c worker p = some r)
    (hok : p.Unexceptional config w worker.backoff) (hsourced : Sourced w.impl v p)
    (hlatch : p.unlatched = true → w.impl.faultLatch = .none) (h : OneSession g p) :
    OneSession (r.events.foldl (RunLog.read n) g) r.worker.pc := by
  cases p with
  | unborn | exited => cases hnext
  | top =>
    obtain rfl := h
    simp only [runNext] at hnext
    split at hnext <;> cases hnext
    · exact .inl rfl
    · simp only [List.foldl_cons, List.foldl_nil, RunLog.read, if_true]
      exact ⟨rfl, rfl, rfl, rfl⟩
  | session p => exact sessionNext_oneSession hpolicy hnext hok hsourced h
  | close context =>
    simp only [runNext] at hnext
    split at hnext
    · split at hnext <;> cases hnext
      rw [RunLog.foldl_other fun e he => by simp [send_owner ‹_› e he]]
      cases context <;> exact h
    · cases hnext
      cases context <;> exact h
  | closeTransport context =>
    cases hnext
    rw [RunLog.foldl_other fun e he => by simp [closedEvents_owner _ e he]]
    cases context <;> exact h
  | decide outcome =>
    obtain ⟨hended, hpublished⟩ := h
    simp only [runNext, hpolicy, and_true] at hnext
    by_cases hstopped : outcome.result = .stopped
    · simp only [hstopped, ne_eq, not_true_eq_false, if_false, true_or, if_true] at hnext
      cases hnext
      exact .inr ⟨outcome, hended, by simp [faultOf, hstopped, hpublished]⟩
    · rw [if_pos hstopped] at hnext
      cases hnext
      exact ⟨outcome, hended, hpublished, hstopped, rfl⟩
  | publish code message =>
    obtain ⟨outcome, hended, hpublished, hstopped, rfl⟩ := h
    have hopen : w.impl.faulted = false := by simp [Impl.faulted, hlatch rfl]
    cases hnext
    rw [hopen]
    simp only [Bool.false_eq_true, if_false, List.foldl_cons, List.foldl_nil, RunLog.read, if_true]
    refine .inr ⟨outcome, ⟨hended.began, hended.outcomes, hended.selected⟩, ?_⟩
    simp [faultOf, hstopped, hpublished]
  | finalFaulted =>
    cases hnext
    dsimp only
    split <;> exact h
  | raised | enterBackoff | backoffWait | backoffBlock | backoffAsleep => exact h.elim
  | _ => cases hnext; exact h

/-- A fault is published at one position. -/
theorem runNext_unpublished {p : RunPc D} (hnext : runNext config w n c worker p = some r)
    (hp : ∀ code message, p ≠ .publish code message) (code : FaultCode) :
    .published n code ∉ r.events := by
  intro he
  cases p with
  | session q =>
    cases q with
    | record q =>
      cases q <;> simp only [runNext, sessionNext, recordNext] at hnext <;>
        (repeat' split at hnext) <;> cases hnext <;>
        first
        | (have hmem := afterRecord_published he; simp at hmem)
        | simp at he
    | sendStart =>
      simp only [runNext, sessionNext] at hnext
      split at hnext <;> cases hnext <;> cases send_owner ‹_› _ he
    | connect =>
      simp only [runNext, sessionNext] at hnext
      split at hnext <;> cases hnext
      · rcases List.mem_append.mp he with he | he
        · cases closedEvents_owner _ _ he
        · simp at he
      · simp at he
    | _ =>
      simp only [runNext, sessionNext] at hnext
      (repeat' split at hnext) <;> cases hnext <;> simp [endSession] at he
  | close context =>
    simp only [runNext] at hnext
    split at hnext
    · split at hnext <;> cases hnext
      cases send_owner ‹_› _ he
    · cases hnext; simp at he
  | closeTransport context => cases hnext; cases closedEvents_owner _ _ he
  | publish code message => exact hp code message rfl
  | _ =>
    simp only [runNext] at hnext
    (repeat' split at hnext) <;> cases hnext <;> simp [nextSession] at he

/-- The latch is what the worker has published. -/
theorem runNext_latch {p : RunPc D} (hnext : runNext config w n c worker p = some r)
    (hopen : p.unlatched = true → w.impl.faultLatch = .none) (h : OneSession g p)
    (hlatch : w.impl.faultLatch = g.published.headD .none) :
    r.impl.faultLatch = (r.events.foldl (RunLog.read n) g).published.headD .none := by
  by_cases hp : ∃ code message, p = .publish code message
  · obtain ⟨code, message, rfl⟩ := hp
    obtain ⟨outcome, hended, hpublished, hstopped, rfl⟩ := h
    have hnone := hopen rfl
    cases hnext
    simp [Impl.publish, Impl.faulted, hnone, RunLog.read, hpublished]
  · have hp' : ∀ code message, p ≠ .publish code message := fun code message h =>
      hp ⟨code, message, h⟩
    rw [(runNext_kept hnext hp').latch, hlatch,
      RunLog.foldl_published fun e he code hcode =>
        runNext_unpublished hnext hp' code (hcode ▸ he)]

end

/-! ## No backoff -/

/-- The state is not `Backoff`, and no rollback will restore it. -/
def NoBackoff (w : World D) : Prop :=
  w.impl.health.state ≠ .backoff ∧ ∀ t p, (w.api t).snapshot = some p → p.health.state ≠ .backoff

theorem publish_noBackoff {i : Impl D} (code : FaultCode) (message : String)
    (h : i.health.state ≠ .backoff) : (i.publish code message).health.state ≠ .backoff := by
  unfold Impl.publish
  split
  · simp
  · exact h

theorem apiNext_noBackoff {p : ApiPc D} {r : ApiNext D} (hnext : apiNext w t c p = some r)
    (h : w.impl.health.state ≠ .backoff)
    (hs : ∀ q, p.snapshot = some q → q.health.state ≠ .backoff) :
    r.impl.health.state ≠ .backoff ∧ ∀ q, r.pc.snapshot = some q → q.health.state ≠ .backoff := by
  cases apiNext_step hnext with
  | dataReset => exact ⟨by simp [Impl.resetData], fun _ hq => by cases hq; exact h⟩
  | clearStopping | clearExited | notCreated | rollbackStopping | rollbackExited
  | rollbackRecord | rollbackFault | rollbackNoFault | rollbackNotifyFirst =>
    exact ⟨h, fun _ hq => by cases hq; exact hs _ rfl⟩
  | @rollbackData _ previous =>
    exact ⟨hs previous rfl, fun _ hq => by cases hq; exact hs previous rfl⟩
  | @rollbackPublish _ previous =>
    exact ⟨publish_noBackoff _ _ h, fun _ hq => by cases hq; exact hs previous rfl⟩
  | stopIdleState | stopJoinedState =>
    exact ⟨by simp [Impl.setState], by simp [ApiPc.snapshot]⟩
  | _ => exact ⟨h, by simp [ApiPc.snapshot]⟩

section
variable [DecidableEq D] [Double D]

theorem runNext_noBackoff {p : RunPc D} (hnext : runNext config w n c worker p = some r)
    (hp : ∀ message, p ≠ .enterBackoff message) (h : w.impl.health.state ≠ .backoff) :
    r.impl.health.state ≠ .backoff := by
  cases p with
  | session q =>
    cases q with
    | record q =>
      cases q with
      | account record receivedAt rdt ft =>
        simp only [runNext, sessionNext, recordNext] at hnext
        split at hnext
        · cases hnext; exact h
        · obtain ⟨-, rfl, -⟩ := account_some ‹_›
          split at hnext <;> cases hnext
          · rw [afterRecord_impl]; simp [Impl.accounted]
          · simp [Impl.accounted]
      | _ =>
        simp only [runNext, sessionNext, recordNext] at hnext
        (repeat' split at hnext) <;> cases hnext <;>
          first | exact h | (rw [afterRecord_impl]; exact h)
    | apply configuration =>
      cases hnext
      simp only [Impl.applyConfiguration]
      split
      · split <;> exact h
      · exact h
    | connecting => cases hnext; simp [Impl.setState]
    | _ =>
      simp only [runNext, sessionNext] at hnext
      (repeat' split at hnext) <;> cases hnext <;> exact h
  | publish code message => cases hnext; exact publish_noBackoff code message h
  | enterBackoff message => exact absurd rfl (hp message)
  | finalState => cases hnext; simp [Impl.setState]
  | _ =>
    simp only [runNext] at hnext
    (repeat' split at hnext) <;> cases hnext <;> exact h

end

/-! ## Runs under `FailStop` -/

structure SingleSession (w : World D) (l : List (Event D)) : Prop where
  log : ∀ n, OneSession (runLog n l) (w.workers n).pc
  latch : ∀ n, w.executing n → w.impl.faultLatch = (runLog n l).published.headD .none
  reconnects : w.impl.health.reconnectCount = 0
  state : NoBackoff w

/-- A step of the environment. -/
theorem SingleSession.frame (h : SingleSession w l) (hevents : ∀ e ∈ l', e.owner = none)
    (hworkers : w'.workers = w.workers) (hlatch : w'.impl.faultLatch = w.impl.faultLatch)
    (hhealth : w'.impl.health = w.impl.health)
    (hsnapshot : ∀ t p, (w'.api t).snapshot = some p → (w.api t).snapshot = some p) :
    SingleSession w' (l ++ l') := by
  have hlog : ∀ n, runLog n (l ++ l') = runLog n l := fun n => by
    rw [runLog_append, RunLog.foldl_other fun e he => by simp [hevents e he]]
  refine ⟨fun n => ?_, fun n hn => ?_, ?_, ?_, fun t p hp => h.state.2 t p (hsnapshot t p hp)⟩
  · rw [hlog, hworkers]; exact h.log n
  · rw [hlog, hlatch]
    rw [World.executing, hworkers] at hn
    exact h.latch n hn
  · rw [hhealth]; exact h.reconnects
  · rw [hhealth]; exact h.state.1

theorem singleSession_initial (clock : TimePoint) :
    SingleSession (D := D) (World.initial clock) [] where
  log _ := rfl
  latch _ _ := rfl
  reconnects := rfl
  state := ⟨by simp [World.initial], by simp [World.initial, ApiPc.snapshot]⟩

section
variable [DecidableEq D] [Double D]

theorem SingleSession.run (hpolicy : config.recoveryPolicy = .failStop) (h : SingleSession w l)
    (hv : Reachable config w l)
    (hok : (w.workers n).pc.Unexceptional config w (w.workers n).backoff)
    (hnext : runNext config w n c (w.workers n) (w.workers n).pc = some r) :
    SingleSession (w.applyRun n r) (l ++ r.events) := by
  have hrun := executing_of_next hnext
  have hlog := h.log n
  have hback : ∀ message, (w.workers n).pc ≠ .enterBackoff message := fun message hpc => by
    rw [hpc] at hlog
    exact hlog
  refine ⟨fun k => ?_, fun k hk => ?_, ?_, ?_, h.state.2⟩
  · rw [runLog_append, World.applyRun_workers]
    by_cases hkn : k = n
    · subst hkn
      rw [Function.update_self]
      exact runNext_oneSession hpolicy hnext hok (hv.provenanced.sourced k)
        (hv.coherent.worker k) hlog
    · rw [Function.update_of_ne hkn, RunLog.foldl_other fun e he => ?_]
      · exact h.log k
      · rcases runNext_owner hnext e he with howner | howner <;> rw [howner]
        · simp
        · exact fun heq => hkn (Option.some.inj heq).symm
  · rw [World.executing, World.applyRun_workers] at hk
    by_cases hkn : k = n
    · subst hkn
      rw [runLog_append]
      exact runNext_latch hnext (hv.coherent.worker k) hlog (h.latch k hrun)
    · rw [Function.update_of_ne hkn] at hk
      exact absurd (hv.orderly.executing_unique hrun hk) hkn
  · exact (runNext_reconnectCount hnext hback).trans h.reconnects
  · exact runNext_noBackoff hnext hback h.state.1

theorem SingleSession.api (h : SingleSession w l) (hv : Reachable config w l) {q : ApiNext D}
    (hnext : apiNext w t c (w.api t) = some q) (hv' : Reachable config (w.applyApi config t q)
      (l ++ q.events)) : SingleSession (w.applyApi config t q) (l ++ q.events) := by
  have hlog : ∀ n, runLog n (l ++ q.events) = runLog n l := fun n => by
    rw [runLog_append, RunLog.foldl_other fun e he => by
      simp [owner_of_byApi (apiNext_events hnext e he)]]
  obtain ⟨hstate, hsnapshot⟩ := apiNext_noBackoff hnext h.state.1 (h.state.2 t)
  refine ⟨fun n => ?_, fun n hn => ?_, ?_, hstate, fun t' p hp => ?_⟩
  · rw [hlog]
    rcases hv.orderly.applyApi_worker config t q n with hsame | ⟨hunborn, htop⟩
    · rw [hsame]; exact h.log n
    · have hn := h.log n
      rw [hunborn] at hn
      rw [htop]
      exact hn
  · rw [hlog]
    rcases hv.orderly.applyApi_worker config t q n with hsame | ⟨hunborn, htop⟩
    · rw [World.executing, hsame] at hn
      have hrewrites : (w.api t).rewrites = false := eq_false_of_ne_true fun hr =>
        hv.orderly.not_executing_of_watched (watched_of_rewrites hr) n hn
      exact (apiNext_kept hnext hrewrites).same.latch.trans (h.latch n hn)
    · have hempty := h.log n
      rw [hunborn] at hempty
      rw [hempty]
      exact hv'.coherent.worker n (by rw [htop]; rfl)
  · have hlife := (apiNext_lifetime hnext (hv.savedLifetime t)).1
    exact (congrArg (fun h => h.reconnectCount) hlife).trans h.reconnects
  · rw [World.applyApi_api] at hp
    by_cases ht : t' = t
    · subst ht
      rw [Function.update_self] at hp
      exact hsnapshot p hp
    · rw [Function.update_of_ne ht] at hp
      exact h.state.2 t' p hp

theorem SingleSession.step (hpolicy : config.recoveryPolicy = .failStop) {a : Action D}
    (h : SingleSession w l) (hv : Reachable config w l) (hok : Unexceptional config w a)
    (hstep : Client.step config w a = some (w', l')) : SingleSession w' (l ++ l') := by
  have hv' := hv.step hstep
  cases a with
  | run n c =>
    obtain ⟨r, hnext, -, rfl, rfl⟩ := step_run hstep
    exact h.run hpolicy hv hok hnext
  | api t c =>
    obtain ⟨q, hnext, -, rfl, rfl⟩ := step_api hstep
    exact h.api hv hnext hv'
  | call t call =>
    simp only [Client.step] at hstep
    (repeat' split at hstep) <;> cases hstep
    refine h.frame (by simp [Event.owner]) rfl rfl rfl fun t' p hp => ?_
    rw [World.enter_api] at hp
    by_cases ht : t' = t
    · subst ht
      rw [Function.update_self] at hp
      cases call <;> cases hp
    · rwa [Function.update_of_ne ht] at hp
  | tick | spurious =>
    cases hstep
    exact h.frame (by simp) rfl rfl rfl fun _ _ => id

end

end NetFT.Client
