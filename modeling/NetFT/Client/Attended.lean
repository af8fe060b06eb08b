import NetFT.Client.Launch
import NetFT.Client.Outcomes
import NetFT.Client.Rollback
import NetFT.Client.Wakeup

/-! No `wait_for_first_sample` sleeps unattended (`first_sample_wait_attended`). `stop` sets its
flag without the data mutex, and its notification can fall between the evaluation of the predicate
and the wait; but a wait begins only while a worker or a `start` has a notification still to make,
and the worker makes it after a section with the data mutex. -/

namespace NetFT.Client
open Detail Library

variable {D : Type}

/-! ## Who notifies -/

/-- The worker has neither been told to stop nor failed. -/
def RunPc.lively : RunPc D → Bool
  | .unborn | .exited | .publishNotifyFirst | .publishNotifyLifecycle | .close .finish
  | .closeTransport .finish | .storeExited | .finalFaulted | .finalState | .finalNotifyFirst
  | .finalNotifyLifecycle => false
  | .close (.session outcome) | .closeTransport (.session outcome) | .decide outcome =>
    outcome.result ≠ .stopped
  | _ => true

/-- The worker has its last notification of the first-sample waits still to make. -/
def RunPc.willNotify : RunPc D → Bool
  | .unborn | .exited | .finalNotifyLifecycle => false
  | _ => true

/-- The worker has its last decision before that notification still to make. -/
def RunPc.precedesFinal : RunPc D → Bool
  | .unborn | .exited | .finalNotifyFirst | .finalNotifyLifecycle => false
  | _ => true

/-- The worker notifies the first-sample waits in its next step. -/
def RunPc.announces : RunPc D → Bool
  | .session (.record (.notifyFirst _)) | .publishNotifyFirst => true
  | _ => false

/-- The positions of a `start` at which nobody executes and the run is not created yet. -/
def ApiPc.reserved : ApiPc D → Bool
  | .start _ (.recordReset _) | .start _ (.dataReset _) | .start _ (.clearStopping _)
  | .start _ (.clearExited _) | .start _ (.create _) => true
  | .start _ (.rollback q _) => q ≠ .notifyFirst ∧ q ≠ .notifyLifecycle
  | _ => false

/-- A `start` that creates a worker, or takes the data mutex, before it notifies. -/
def ApiPc.binds : ApiPc D → Bool
  | .start _ (.rollback .latchReset previous) => previous.fault ≠ .none
  | p => p.reserved

/-- The entry point has a notification of the first-sample waits still to make. -/
def ApiPc.announces : ApiPc D → Bool
  | .start _ .setActive | .start _ .notifyFirst | .start _ (.rollback .notifyFirst _)
  | .stop .notifyFirst => true
  | p => p.reserved

/-- No run is in progress, or it is over. -/
def Impl.Settled (i : Impl D) : Prop :=
  i.generation = 0 ∨ i.stopping = true ∨ i.faulted = true

/-- The members that a wait for the first sample looks at, but for the request to stop. -/
structure SameWait (i i' : Impl D) : Prop where
  generation : i'.generation = i.generation
  delivered : i'.deliveredGeneration = i.deliveredGeneration
  faulted : i'.faulted = true → i.faulted = true

variable {config : Config D} {w w' : World D} {t t' : Tid} {n : Nat} {c : Choice D}
  {l : List (Event D)} {r : ApiNext D} {captured : Nat}

theorem announces_of_reserved {p : ApiPc D} (h : p.reserved = true) : p.announces = true := by
  cases p with
  | start callback q =>
    cases q with
    | rollback q previous => cases q <;> first | rfl | cases h
    | _ => first | rfl | cases h
  | _ => cases h

theorem reserved_of_binds {p : ApiPc D} (h : p.binds = true) : p.reserved = true := by
  cases p with
  | start callback q =>
    cases q with
    | rollback q previous => cases q <;> first | rfl | cases h
    | _ => exact h
  | _ => exact h

theorem reserved_role {p : ApiPc D} (h : p.reserved = true) :
    p.role = .quiet ∨ p.role = .cleared := by
  cases p with
  | start callback q =>
    cases q with
    | rollback q previous => cases q <;> first | exact .inl rfl | exact .inr rfl
    | _ => first | exact .inl rfl | exact .inr rfl | cases h
  | _ => cases h

/-! ## Steps of the entry points -/

/-- A notification that is owed is made, or made by the step. -/
theorem apiNext_announces {p : ApiPc D} (hnext : apiNext w t c p = some r)
    (hp : p.announces = true) : r.pc.announces = true ∨ r.impl.firstSampleCv = [] := by
  cases apiNext_step hnext with
  | startNotifyFirst | rollbackNotifyFirst | stopNotifyFirst => exact .inr rfl
  | _ => first | exact .inl rfl | cases hp

/-- Only a reserved `start` with the data mutex changes what a wait looks at, and then it owes a
notification. -/
theorem apiNext_sameWait {p : ApiPc D} (hnext : apiNext w t c p = some r) :
    SameWait w.impl r.impl ∨
      .data ∈ p.needs ∧ p.reserved = true ∧ r.pc.announces = true := by
  cases apiNext_step hnext with
  | dataReset | rollbackData | rollbackPublish =>
    exact .inr ⟨by simp [ApiPc.needs, StartPc.needs, RollbackPc.needs], rfl, rfl⟩
  | rollbackFault | rollbackNoFault => exact .inl ⟨rfl, rfl, by simp [Impl.faulted]⟩
  | _ => exact .inl ⟨rfl, rfl, id⟩

/-- A bound `start` stays so until it has taken the data mutex or created a worker. -/
theorem apiNext_binds {p : ApiPc D} (hnext : apiNext w t c p = some r) (hp : p.binds = true)
    (hdata : .data ∉ p.needs) : r.pc.binds = true ∨ r.spawn = true := by
  cases apiNext_step hnext with
  | created => exact .inr rfl
  | recordReset | clearStopping | clearExited | notCreated | rollbackStopping | rollbackExited
  | rollbackRecord | rollbackFault => exact .inl rfl
  | rollbackNoFault hnone => simp [ApiPc.binds, hnone] at hp
  | dataReset | rollbackData | rollbackPublish =>
    exact absurd (by simp [ApiPc.needs, StartPc.needs, RollbackPc.needs]) hdata
  | _ => cases hp

/-- Only a `start` that is reserved begins a new run. -/
theorem apiNext_settled {p : ApiPc D} (hnext : apiNext w t c p = some r)
    (hp : p.reserved = false) (h : w.impl.Settled) : r.impl.Settled := by
  cases apiNext_step hnext with
  | stopFlag => exact .inr (.inl rfl)
  | _ => first | exact h | cases hp

/-- A wait begins only while it is not over. -/
theorem apiNext_block {p : ApiPc D} (hnext : apiNext w t c p = some r)
    (hr : r.pc = .wait (.block captured)) :
    (p = .wait .enter ∧ captured = w.impl.generation ∧ captured ≠ 0 ∨
        p = .wait (.asleep captured)) ∧
      w.impl.waitOver captured = false ∧ r.impl = w.impl := by
  cases apiNext_step hnext with
  | waitBegins hne hover => cases hr; exact ⟨.inl ⟨rfl, rfl, hne⟩, hover, rfl⟩
  | waitAgain _ _ hover => cases hr; exact ⟨.inr rfl, hover, rfl⟩
  | _ => cases hr

/-- A wait sleeps only by enqueueing itself. -/
theorem apiNext_asleep {p : ApiPc D} (hnext : apiNext w t c p = some r)
    (hr : r.pc = .wait (.asleep captured)) :
    p = .wait (.block captured) ∧ SameWait w.impl r.impl := by
  cases apiNext_step hnext with
  | waitBlock => cases hr; exact ⟨rfl, rfl, rfl, id⟩
  | _ => cases hr

/-! ## What a reserved `start` would leave behind -/

theorem target_of_not_reserved {p : ApiPc D} (hp : p.reserved = false) (i : Impl D) :
    p.target i = i := by
  cases p with
  | start callback q =>
    cases q with
    | rollback q previous => cases q <;> first | rfl | cases hp
    | _ => first | rfl | cases hp
  | _ => rfl

/-- The target is settled by what was saved, the generation and the request to stop. -/
theorem target_settled {p : ApiPc D} {i i' : Impl D} (hp : p.reserved = true)
    (hgeneration : i'.generation = i.generation)
    (hstopping : i.stopping = true → i'.stopping = true)
    (h : (p.target i).Settled) : (p.target i').Settled := by
  cases p with
  | start callback q =>
    cases q with
    | rollback q previous =>
      cases q with
      | stopping => exact h
      | exited | record | data => exact h.imp_right fun h => h.imp_left hstopping
      | latchReset | publish =>
        exact h.imp (fun h => hgeneration.trans h) fun h => h.imp_left hstopping
      | notifyFirst | notifyLifecycle => cases hp
    | recordReset | dataReset => exact h.imp_left fun h => hgeneration.trans h
    | clearStopping | clearExited | create => exact h
    | _ => cases hp
  | _ => cases hp

/-- A reserved `start` creates a worker or goes on to its target. -/
theorem apiNext_target {p : ApiPc D} (hnext : apiNext w t c p = some r) (hp : p.reserved = true)
    (h : (p.target w.impl).Settled) :
    r.spawn = true ∧ r.pc.reserved = false ∨ (r.pc.target r.impl).Settled := by
  cases apiNext_step hnext with
  | created => exact .inl ⟨rfl, rfl⟩
  | recordReset | dataReset | clearStopping | clearExited | notCreated | rollbackStopping
  | rollbackExited | rollbackRecord | rollbackData | rollbackFault => exact .inr h
  | rollbackNoFault =>
    exact .inr (h.imp_right fun h => h.imp_right fun h => by simp_all [Impl.faulted, ApiPc.target])
  | rollbackPublish =>
    refine .inr ?_
    simp only [Impl.publish]
    split
    · exact h
    · exact h.imp_right fun h => h.imp_right fun _ => by simp_all [Impl.faulted, ApiPc.target]
  | _ => cases hp

/-- A `start` becomes reserved where it saves the flags. -/
theorem apiNext_reserved {p : ApiPc D} (hnext : apiNext w t c p = some r)
    (hr : r.pc.reserved = true) :
    p.reserved = true ∨ p.reserved = false ∧ p.role = .quiet ∧
      (w.impl.Settled → (r.pc.target r.impl).Settled) := by
  cases apiNext_step hnext with
  | save => exact .inr ⟨rfl, rfl, id⟩
  | _ => first | exact .inl rfl | cases hr

/-- A reserved `start` whose target is settled has a notification or a worker before it, while the
run that is in progress is not over. -/
theorem binds_of_reserved {p : ApiPc D} {i : Impl D} (hp : p.reserved = true)
    (h : (p.target i).Settled) (hgeneration : i.generation ≠ 0) (hstopping : i.stopping = false) :
    p.binds = true := by
  cases p with
  | start callback q =>
    cases q with
    | rollback q previous =>
      cases q with
      | latchReset =>
        rcases h with h | h | h
        · exact absurd h hgeneration
        · exact absurd (hstopping.symm.trans h) (by simp)
        · exact h
      | notifyFirst | notifyLifecycle => cases hp
      | _ => rfl
    | _ => first | rfl | cases hp
  | _ => cases hp

/-! ## Steps of the worker -/

/-- A worker changes neither the generation nor the flag, and the fault only to one. -/
theorem Impl.Settled.worker {i i' : Impl D} (h : i.Settled)
    (hgeneration : i'.generation = i.generation) (hstopping : i'.stopping = i.stopping)
    (hfault : i.faulted = true → i'.faulted = true) :
    i'.Settled := by
  rcases h with h | h | h
  · exact .inl (hgeneration.trans h)
  · exact .inr (.inl (hstopping.trans h))
  · exact .inr (.inr (hfault h))

section
variable [DecidableEq D] [Double D] {worker : Worker D} {r : RunNext D}

/-- What a step of a worker changes of what the waits look at, and where it has the data mutex. -/
structure WaitStep (w : World D) (p : RunPc D) (r : RunNext D) : Prop where
  wait : SameWait w.impl r.impl ∨ .data ∈ p.needs ∧ r.worker.pc.announces = true
  generation : r.impl.generation = w.impl.generation
  faulted : w.impl.faulted = true → r.impl.faulted = true

omit [DecidableEq D] [Double D] in
theorem WaitStep.same {p : RunPc D} (hgeneration : r.impl.generation = w.impl.generation)
    (hdelivered : r.impl.deliveredGeneration = w.impl.deliveredGeneration)
    (hfault : r.impl.faultLatch = w.impl.faultLatch) : WaitStep w p r where
  wait := .inl ⟨hgeneration, hdelivered, by simp [Impl.faulted, hfault]⟩
  generation := hgeneration
  faulted := by simp [Impl.faulted, hfault]

omit [DecidableEq D] in
theorem recordNext_waitStep {p : RecordPc D} (hnext : recordNext config w n c worker p = some r) :
    WaitStep w (.session (.record p)) r := by
  cases p with
  | account record receivedAt rdt ft =>
    simp only [recordNext] at hnext
    split at hnext
    · cases hnext; exact .same rfl rfl rfl
    · rename_i haccount
      obtain ⟨-, rfl, -⟩ := account_some haccount
      split at hnext <;> cases hnext
      · apply WaitStep.same <;> simp only [afterRecord_impl] <;> rfl
      · exact .same rfl rfl rfl
  | callbackFailed | notifyLifecycle =>
    cases hnext
    apply WaitStep.same <;> simp only [afterRecord_impl] <;> rfl
  | commitData sample outcome =>
    cases hnext
    exact ⟨.inr ⟨by simp [RunPc.needs, SessionPc.needs, RecordPc.needs], rfl⟩, rfl, id⟩
  | _ =>
    simp only [recordNext] at hnext
    (repeat' split at hnext) <;> cases hnext <;> exact .same rfl rfl rfl

theorem sessionNext_waitStep {p : SessionPc D}
    (hnext : sessionNext config w n c worker p = some r) : WaitStep w (.session p) r := by
  cases p with
  | record p => exact recordNext_waitStep hnext
  | apply configuration =>
    cases hnext
    simp only [Impl.applyConfiguration]
    (repeat' split) <;> exact .same rfl rfl rfl
  | _ =>
    simp only [sessionNext] at hnext
    (repeat' split at hnext) <;> cases hnext <;> exact .same rfl rfl rfl

theorem runNext_waitStep {p : RunPc D} (hnext : runNext config w n c worker p = some r) :
    WaitStep w p r := by
  cases p with
  | session p => exact sessionNext_waitStep hnext
  | publish code message =>
    cases hnext
    refine ⟨.inr ⟨by simp [RunPc.needs], rfl⟩, ?_, fun h => ?_⟩
    · simp only [Impl.publish]
      split <;> rfl
    · simp only [Impl.publish]
      split <;> simp_all [Impl.faulted]
  | closeTransport context => cases hnext; cases context <;> exact .same rfl rfl rfl
  | _ =>
    simp only [runNext] at hnext
    (repeat' split at hnext) <;> cases hnext <;> exact .same rfl rfl rfl

omit [DecidableEq D] in
theorem recordNext_inSession {p : RecordPc D} (hnext : recordNext config w n c worker p = some r)
    (hp : ∀ result, p.outcome = some result → result.ofRecord = true) :
    r.worker.pc.lively = true ∧ r.worker.pc.willNotify = true ∧
      r.worker.pc.precedesFinal = true := by
  have hafter : ∀ {i : Impl D} {outcome : Option SessionResult} {events : List (Event D)},
      (∀ result, outcome = some result → result.ofRecord = true) →
        (afterRecord i worker n outcome events : RunNext D).worker.pc.lively = true ∧
        (afterRecord i worker n outcome events : RunNext D).worker.pc.willNotify = true ∧
        (afterRecord i worker n outcome events : RunNext D).worker.pc.precedesFinal = true := by
    intro i outcome events h
    cases outcome with
    | none => exact ⟨rfl, rfl, rfl⟩
    | some result =>
      refine ⟨?_, rfl, rfl⟩
      have hrecord := h result rfl
      cases result <;> first | rfl | cases hrecord
  cases p with
  | account record receivedAt rdt ft =>
    simp only [recordNext] at hnext
    split at hnext
    · cases hnext; exact ⟨rfl, rfl, rfl⟩
    rename_i haccount
    obtain ⟨-, -, hverdict⟩ := account_some haccount
    split at hnext <;> cases hnext
    · rename_i hdispose
      refine hafter fun result hresult => ?_
      rcases dispose_finish hdispose with ⟨-, rfl⟩ | ⟨-, -, rfl⟩
      · rw [hverdict] at hresult
        exact recordVerdict_ofRecord hresult
      · rw [← Option.some.inj hresult]; rfl
    · exact ⟨rfl, rfl, rfl⟩
  | callbackFailed message outcome =>
    cases hnext
    exact hafter fun result hresult => callbackFailureOutcome_ofRecord hp hresult
  | notifyLifecycle outcome => cases hnext; exact hafter hp
  | _ =>
    simp only [recordNext] at hnext
    (repeat' split at hnext) <;> cases hnext <;> exact ⟨rfl, rfl, rfl⟩

/-- A session ends as stopped only after a request to stop, and notifies nobody at its end. -/
theorem sessionNext_inSession {p : SessionPc D}
    (hnext : sessionNext config w n c worker p = some r)
    (hp : ∀ result, (RunPc.session p).recordOutcome = some result → result.ofRecord = true) :
    (r.worker.pc.lively = true ∨ r.impl.stopping = true) ∧ r.worker.pc.willNotify = true ∧
      r.worker.pc.precedesFinal = true := by
  cases p with
  | record p =>
    obtain ⟨hlively, hrest⟩ := recordNext_inSession hnext hp
    exact ⟨.inl hlively, hrest⟩
  | discoverFailed message | socketFailed message =>
    cases hnext
    refine ⟨?_, rfl, rfl⟩
    by_cases hstop : w.impl.stopping = true
    · exact .inr hstop
    · refine .inl ?_
      simp [endSession, RunPc.lively, hstop]
  | _ =>
    simp only [sessionNext] at hnext
    (repeat' split at hnext) <;> cases hnext <;>
      first | exact ⟨.inl rfl, rfl, rfl⟩ | exact ⟨.inr ‹_›, rfl, rfl⟩

/-- A last notification that is owed is made, or made by the step. -/
theorem runNext_willNotify {p : RunPc D} (hnext : runNext config w n c worker p = some r)
    (hp : p.willNotify = true)
    (houtcome : ∀ result, p.recordOutcome = some result → result.ofRecord = true) :
    r.worker.pc.willNotify = true ∨ r.impl.firstSampleCv = [] := by
  cases p with
  | session p => exact .inl (sessionNext_inSession hnext houtcome).2.1
  | closeTransport context => cases hnext; cases context <;> exact .inl rfl
  | raised | finalFaulted =>
    cases hnext
    dsimp only
    split <;> exact .inl rfl
  | finalNotifyFirst => cases hnext; exact .inr rfl
  | unborn | exited | finalNotifyLifecycle => cases hp
  | _ =>
    simp only [runNext] at hnext
    (repeat' split at hnext) <;> cases hnext <;> exact .inl rfl

theorem runNext_announces {p : RunPc D} (hnext : runNext config w n c worker p = some r)
    (hp : p.announces = true) : r.impl.firstSampleCv = [] := by
  cases p with
  | session p =>
    cases p with
    | record p =>
      cases p with
      | notifyFirst outcome => cases hnext; rfl
      | _ => cases hp
    | _ => cases hp
  | publishNotifyFirst => cases hnext; rfl
  | _ => cases hp

/-- Without a fault a worker does not come to its last notification without the data mutex. -/
theorem runNext_precedesFinal {p : RunPc D} (hnext : runNext config w n c worker p = some r)
    (hp : p.precedesFinal = true) (hfault : w.impl.faulted = false) (hdata : .data ∉ p.needs)
    (houtcome : ∀ result, p.recordOutcome = some result → result.ofRecord = true) :
    r.worker.pc.precedesFinal = true := by
  cases p with
  | session p => exact (sessionNext_inSession hnext houtcome).2.2
  | closeTransport context => cases hnext; cases context <;> rfl
  | raised message =>
    cases hnext
    dsimp only
    split <;> rfl
  | finalFaulted =>
    cases hnext
    simp only [hfault]
    rfl
  | finalState => exact absurd (by simp [RunPc.needs]) hdata
  | unborn | exited | finalNotifyFirst | finalNotifyLifecycle => cases hp
  | _ =>
    simp only [runNext] at hnext
    (repeat' split at hnext) <;> cases hnext <;> rfl

/-- A worker ends only after a request to stop or with a fault. -/
theorem runNext_lively {p : RunPc D} (hnext : runNext config w n c worker p = some r)
    (hp : p.lively = true)
    (houtcome : ∀ result, p.recordOutcome = some result → result.ofRecord = true)
    (hcode : ∀ code, p.publishes = some code → code ≠ .none) :
    r.worker.pc.lively = true ∨ r.impl.Settled := by
  cases p with
  | session p => exact (sessionNext_inSession hnext houtcome).1.imp_right fun h => .inr (.inl h)
  | top =>
    simp only [runNext] at hnext
    split at hnext <;> cases hnext
    · rename_i hend
      exact .inr (.inr (by simpa using hend))
    · exact .inl rfl
  | close context =>
    cases context with
    | finish => cases hp
    | session outcome =>
      simp only [runNext] at hnext
      (repeat' split at hnext) <;> cases hnext <;> exact .inl hp
  | closeTransport context =>
    cases context with
    | finish => cases hp
    | session outcome => cases hnext; exact .inl hp
  | decide outcome =>
    have hresult : outcome.result ≠ .stopped := by simpa [RunPc.lively] using hp
    simp only [runNext] at hnext
    (repeat' split at hnext) <;> cases hnext
    · exact .inl rfl
    · exact .inr (.inr (.inl (by simp_all)))
    all_goals exact .inl rfl
  | raised message =>
    cases hnext
    dsimp only
    split
    · exact .inr (.inr (.inl ‹_›))
    · exact .inl rfl
  | publish code message =>
    cases hnext
    refine .inr (.inr (.inr ?_))
    have hne := hcode code rfl
    simp only [Impl.publish]
    split <;> simp_all [Impl.faulted]
  | enterBackoff | backoffWait | backoffBlock | backoffAsleep =>
    simp only [runNext] at hnext
    (repeat' split at hnext) <;> cases hnext <;> exact .inl rfl
  | _ => cases hp

/-! ## The run is attended to -/

/-- While a run is in progress a worker is not at its end, or a `start` is reserved; and what a
reserved `start` would leave behind has no run in progress. -/
structure Grounded (w : World D) : Prop where
  run : (∃ n, (w.workers n).pc.lively = true) ∨ w.impl.Settled ∨ ∃ t, (w.api t).reserved = true
  target : ∀ t, (w.api t).reserved = true → ((w.api t).target w.impl).Settled

omit [DecidableEq D] [Double D] in
theorem executing_of_lively (h : (w.workers n).pc.lively = true) : w.executing n := by
  unfold World.executing
  generalize (w.workers n).pc = p at h ⊢
  cases p <;> first | rfl | cases h

omit [DecidableEq D] [Double D] in
/-- The steps of the entry points leave a worker that is born where it is. -/
theorem Orderly.born_applyApi (ho : Orderly w) {r : ApiNext D} {P : RunPc D → Bool}
    (hunborn : P .unborn = false) (h : ∃ n, P (w.workers n).pc = true) :
    ∃ n, P ((w.applyApi config t r).workers n).pc = true := by
  obtain ⟨n, hn⟩ := h
  refine ⟨n, ?_⟩
  rcases ho.applyApi_worker config t r n with hsame | ⟨hpc, -⟩
  · rw [hsame]
    exact hn
  · rw [hpc, hunborn] at hn
    cases hn

omit [DecidableEq D] [Double D] in
theorem spawned_applyApi {r : ApiNext D} (hspawn : r.spawn = true) :
    ((w.applyApi config t r).workers w.created).pc = .top := by
  simp [World.applyApi, hspawn]

omit [DecidableEq D] [Double D] in
/-- What holds of some thread still holds of one after a step that keeps it. -/
theorem some_applyApi {r : ApiNext D} {P : ApiPc D → Bool}
    (hstep : P (w.api t) = true → P r.pc = true) (h : ∃ t', P (w.api t') = true) :
    ∃ t', P ((w.applyApi config t r).api t') = true := by
  obtain ⟨t', ht'⟩ := h
  refine ⟨t', ?_⟩
  rw [World.applyApi_api]
  by_cases ht : t' = t
  · subst ht
    rw [Function.update_self]
    exact hstep ht'
  · rw [Function.update_of_ne ht]
    exact ht'

omit [DecidableEq D] [Double D] in
theorem some_applyRun {P : RunPc D → Bool}
    (hstep : P (w.workers n).pc = true → P r.worker.pc = true)
    (h : ∃ k, P (w.workers k).pc = true) : ∃ k, P ((w.applyRun n r).workers k).pc = true := by
  obtain ⟨k, hk⟩ := h
  refine ⟨k, ?_⟩
  rw [World.applyRun_workers]
  by_cases hkn : k = n
  · subst hkn
    rw [Function.update_self]
    exact hstep hk
  · rw [Function.update_of_ne hkn]
    exact hk

omit [DecidableEq D] [Double D] in
/-- A call disturbs no thread that executes an entry point. -/
theorem enter_other {call : Call} {P : ApiPc D → Bool} (hidle : w.api t = .idle)
    (hP : P .idle = false) (h : ∃ t', P (w.api t') = true) :
    ∃ t', P ((w.enter t call).api t') = true := by
  obtain ⟨t', ht'⟩ := h
  have hne : t' ≠ t := by
    rintro rfl
    rw [hidle, hP] at ht'
    cases ht'
  refine ⟨t', ?_⟩
  rw [World.enter_api, Function.update_of_ne hne]
  exact ht'

omit [DecidableEq D] [Double D] in
theorem Orderly.not_executing_of_reserved (ho : Orderly w) (h : (w.api t).reserved = true)
    (n : Nat) : ¬ w.executing n :=
  have hrest := ho.life.resting t (reserved_role h)
  ho.life.not_executing hrest.1 hrest.2 n

omit [DecidableEq D] [Double D] in
/-- Another thread leaves the target of a reserved `start` settled. -/
theorem Orderly.target_beside (ho : Orderly w) {r : ApiNext D}
    (hnext : apiNext w t c (w.api t) = some r) (hne : t' ≠ t) (ht' : (w.api t').reserved = true)
    (h : ((w.api t').target w.impl).Settled) : ((w.api t').target r.impl).Settled := by
  have hexclusive := exclusive_of_resting (reserved_role ht')
  have hgeneration : r.impl.generation = w.impl.generation := by
    rcases apiNext_sameWait hnext with hsame | ⟨-, hp, -⟩
    · exact hsame.generation
    · exact absurd (ho.exclusive_unique hexclusive (exclusive_of_resting (reserved_role hp))) hne
  refine target_settled ht' hgeneration (fun hstop => ?_) h
  rcases (apiNext_owes hnext).1 with hsame | ⟨-, hstop'⟩ | hrole
  · exact hsame.trans hstop
  · exact hstop'
  · exact absurd (ho.exclusive_unique hexclusive (exclusive_of_resting hrole)) hne

omit [DecidableEq D] [Double D] in
theorem Grounded.api (h : Grounded w) (ho : Orderly w) {r : ApiNext D}
    (hnext : apiNext w t c (w.api t) = some r) : Grounded (w.applyApi config t r) := by
  have hself : ((w.applyApi config t r).api t) = r.pc := by
    rw [World.applyApi_api, Function.update_self]
  have hother : ∀ t', t' ≠ t → (w.applyApi config t r).api t' = w.api t' := fun t' ht => by
    rw [World.applyApi_api, Function.update_of_ne ht]
  -- what a reserved `start` does at its own step
  have hstart : (w.api t).reserved = true →
      (∃ n, ((w.applyApi config t r).workers n).pc.lively = true) ∨ r.impl.Settled ∨
        ∃ t', ((w.applyApi config t r).api t').reserved = true := by
    intro hp
    rcases apiNext_target hnext hp (h.target t hp) with ⟨hspawn, -⟩ | htarget
    · exact .inl ⟨w.created, by rw [spawned_applyApi hspawn]; rfl⟩
    · cases hr : r.pc.reserved with
      | true => exact .inr (.inr ⟨t, by rw [hself, hr]⟩)
      | false => exact .inr (.inl (target_of_not_reserved hr r.impl ▸ htarget))
  constructor
  · by_cases hp : (w.api t).reserved = true
    · exact hstart hp
    rcases h.run with hlively | hsettled | hstart
    · exact .inl (ho.born_applyApi rfl hlively)
    · exact .inr (.inl (apiNext_settled hnext (eq_false_of_ne_true hp) hsettled))
    · exact .inr (.inr (some_applyApi (fun hreserved => absurd hreserved hp) hstart))
  · intro t' ht'
    by_cases ht : t' = t
    · subst ht
      rw [hself] at ht' ⊢
      rw [World.applyApi_impl]
      rcases apiNext_reserved hnext ht' with hp | ⟨hp, hquiet, hsaved⟩
      · rcases apiNext_target hnext hp (h.target t' hp) with ⟨-, hr⟩ | htarget
        · rw [hr] at ht'
          cases ht'
        · exact htarget
      · -- nobody executes where the flags are saved, and nobody else is reserved
        rcases h.run with ⟨n, hn⟩ | hsettled | ⟨t₀, ht₀⟩
        · have hrest := ho.life.resting t' (.inl hquiet)
          exact absurd (executing_of_lively hn) (ho.life.not_executing hrest.1 hrest.2 n)
        · exact hsaved hsettled
        · obtain rfl := ho.exclusive_unique (exclusive_of_resting (reserved_role ht₀))
            (exclusive_of_resting (.inl hquiet))
          exact absurd (hp.symm.trans ht₀) (by simp)
    · rw [hother t' ht] at ht' ⊢
      rw [World.applyApi_impl]
      exact ho.target_beside hnext ht ht' (h.target t' ht')

theorem Grounded.run_move (h : Grounded w) (ho : Orderly w) (hc : Coherent w)
    (hrecord : RecordOutcomes w)
    (hnext : runNext config w n c (w.workers n) (w.workers n).pc = some r) :
    Grounded (w.applyRun n r) := by
  have hfree : ∀ t, (w.api t).reserved = true → False := fun t ht =>
    ho.not_executing_of_reserved ht n (executing_of_next hnext)
  refine ⟨?_, fun t ht => (hfree t ht).elim⟩
  rcases h.run with ⟨k, hk⟩ | hsettled | ⟨t, ht⟩
  · by_cases hkn : k = n
    · subst hkn
      rcases runNext_lively hnext hk (hrecord k) (hc.codes k) with hlively | hsettled
      · exact .inl ⟨k, by rw [World.applyRun_workers, Function.update_self]; exact hlively⟩
      · exact .inr (.inl hsettled)
    · exact .inl ⟨k, by rw [World.applyRun_workers, Function.update_of_ne hkn]; exact hk⟩
  · have hwait := runNext_waitStep hnext
    exact .inr (.inl (hsettled.worker hwait.generation (runNext_control hnext).stopping
      hwait.faulted))
  · exact (hfree t ht).elim

theorem Grounded.move (h : Grounded w) (ho : Orderly w) (hc : Coherent w)
    (hrecord : RecordOutcomes w) (hm : Moved config w w' l) : Grounded w' := by
  cases hm with
  | tick ticks => exact ⟨h.run, h.target⟩
  | spurious t =>
    refine ⟨h.run, fun t' ht' => ?_⟩
    have htarget := h.target t' ht'
    rw [World.wakeSpuriously_api] at ht' ⊢
    exact target_settled (i := w.impl) ht' rfl id htarget
  | call t call hidle hmay =>
    have hentry : call.entry.reserved (D := D) = false := by cases call <;> rfl
    refine ⟨h.run.imp_right fun hrun => hrun.imp_right (enter_other hidle rfl),
      fun t' ht' => ?_⟩
    by_cases ht : t' = t
    · subst ht
      rw [World.enter_api, Function.update_self, hentry] at ht'
      cases ht'
    · rw [World.enter_api, Function.update_of_ne ht] at ht' ⊢
      exact h.target t' ht'
  | run n c r hnext htake => exact h.run_move ho hc hrecord hnext
  | api t c r hnext htake => exact h.api ho hnext

theorem Reachable.grounded (h : Reachable config w l) : Grounded w :=
  h.induction (I := fun v _ => Grounded v)
    (fun _ => ⟨.inr (.inl (.inl rfl)), fun _ h => by cases h⟩)
    fun hv hi hm => hi.move hv.orderly hv.coherent hv.recordOutcomes hm

/-! ## The waits -/

/-- Somebody has a notification of the first-sample waits still to make. -/
def Heralded (w : World D) : Prop :=
  (∃ n, (w.workers n).pc.willNotify = true) ∨ ∃ t, (w.api t).announces = true

/-- Somebody has such a notification to make who waits for nothing but mutexes until then. -/
def HeraldedNow (w : World D) : Prop :=
  (∃ n, (w.workers n).pc.announces = true) ∨ ∃ t, (w.api t).announces = true

/-- The run that is waited for has delivered nothing and has not failed. -/
structure Impl.Pending (i : Impl D) (captured : Nat) : Prop where
  generation : i.generation = captured
  delivered : i.deliveredGeneration ≠ captured
  faulted : i.faulted = false

/-- What is known of a wait that is about to sleep, and of one that sleeps. -/
structure Attended (w : World D) : Prop where
  block : ∀ t captured, w.api t = .wait (.block captured) →
    captured ≠ 0 ∧ w.impl.Pending captured ∧
      ((∃ n, (w.workers n).pc.precedesFinal = true) ∨ ∃ t', (w.api t').binds = true)
  asleep : ∀ t captured, w.api t = .wait (.asleep captured) →
    captured ≠ 0 ∧ (t ∈ w.impl.firstSampleCv →
      Heralded w ∧ (w.impl.Pending captured ∨ HeraldedNow w))

omit [DecidableEq D] [Double D] in
theorem Impl.Pending.same {i i' : Impl D} (h : i.Pending captured) (hsame : SameWait i i') :
    i'.Pending captured where
  generation := hsame.generation.trans h.generation
  delivered := fun hdelivered => h.delivered (hsame.delivered.symm.trans hdelivered)
  faulted := eq_false_of_ne_true fun hfault => by
    have := hsame.faulted hfault
    rw [h.faulted] at this
    cases this

omit [DecidableEq D] [Double D] in
theorem pending_of_waits {i : Impl D} (h : i.waitOver captured = false) :
    i.Pending captured ∧ i.stopping = false := by
  simp only [Impl.waitOver, Bool.or_eq_false_iff, decide_eq_false_iff_not, not_not] at h
  obtain ⟨⟨⟨hgeneration, hdelivered⟩, hstopping⟩, hfaulted⟩ := h
  exact ⟨⟨hgeneration, hdelivered, hfaulted⟩, hstopping⟩

omit [DecidableEq D] [Double D] in
theorem precedesFinal_of_lively {p : RunPc D} (h : p.lively = true) : p.precedesFinal = true := by
  cases p <;> first | rfl | cases h

omit [DecidableEq D] [Double D] in
theorem willNotify_of_precedesFinal {p : RunPc D} (h : p.precedesFinal = true) :
    p.willNotify = true := by
  cases p <;> first | rfl | cases h

omit [DecidableEq D] [Double D] in
/-- A wait that is not over has somebody to wait for. -/
theorem Grounded.waits (h : Grounded w) (hcaptured : captured ≠ 0)
    (hpending : w.impl.Pending captured) (hstopping : w.impl.stopping = false) :
    (∃ n, (w.workers n).pc.precedesFinal = true) ∨ ∃ t, (w.api t).binds = true := by
  have hgeneration : w.impl.generation ≠ 0 := hpending.generation ▸ hcaptured
  rcases h.run with ⟨n, hn⟩ | hsettled | ⟨t, ht⟩
  · exact .inl ⟨n, precedesFinal_of_lively hn⟩
  · rcases hsettled with hzero | hstop | hfault
    · exact absurd hzero hgeneration
    · exact absurd (hstopping.symm.trans hstop) (by simp)
    · exact absurd (hpending.faulted.symm.trans hfault) (by simp)
  · exact .inr ⟨t, binds_of_reserved ht (h.target t ht) hgeneration hstopping⟩

omit [DecidableEq D] [Double D] in
/-- A notification that a thread owes is still owed while a thread sleeps. -/
theorem announces_applyApi {r : ApiNext D} (hnext : apiNext w t c (w.api t) = some r)
    (hcv : r.impl.firstSampleCv ≠ []) (h : ∃ t', (w.api t').announces = true) :
    ∃ t', ((w.applyApi config t r).api t').announces = true :=
  some_applyApi (fun hp => (apiNext_announces hnext hp).resolve_right hcv) h

omit [DecidableEq D] [Double D] in
theorem Attended.api (h : Attended w) (hg : Grounded w) (ho : Orderly w) {r : ApiNext D}
    (hnext : apiNext w t c (w.api t) = some r)
    (htake : canTake w.locks (w.api t).held ((w.api t).needs ++ r.pc.held) = true) :
    Attended (w.applyApi config t r) := by
  constructor <;> intro t' captured ht' <;> rw [World.applyApi_api] at ht'
  · by_cases ht : t' = t
    · -- the wait begins, or begins again
      subst ht
      rw [Function.update_self] at ht'
      obtain ⟨hfrom, hover, himpl⟩ := apiNext_block hnext ht'
      obtain ⟨hpending, hstopping⟩ := pending_of_waits hover
      have hcaptured : captured ≠ 0 := by
        rcases hfrom with ⟨-, -, hne⟩ | hasleep
        · exact hne
        · exact (h.asleep t' captured hasleep).1
      rw [World.applyApi_impl, himpl]
      refine ⟨hcaptured, hpending, (hg.waits hcaptured hpending hstopping).imp ?_ ?_⟩
      · exact ho.born_applyApi rfl
      · refine some_applyApi fun hp => ?_
        rcases hfrom with ⟨hwait, -⟩ | hwait <;> rw [hwait] at hp <;> cases hp
    · -- it holds the data mutex
      rw [Function.update_of_ne ht] at ht'
      obtain ⟨hcaptured, hpending, hsomebody⟩ := h.block t' captured ht'
      have hlock : w.locks .data = some t' :=
        (ho.locked .data t').mpr (.inl (by simp [ht', ApiPc.held, WaitPc.held]))
      have hdata : .data ∉ (w.api t).needs := fun hneeds =>
        ht (ho.locked.owner_api htake (.inr hneeds) hlock)
      have hsame := (apiNext_sameWait hnext).resolve_right fun h => hdata h.1
      refine ⟨hcaptured, hpending.same hsame, ?_⟩
      rcases hsomebody with hworker | hstart
      · exact .inl (ho.born_applyApi rfl hworker)
      cases hspawn : r.spawn with
      | true => exact .inl ⟨w.created, by rw [spawned_applyApi hspawn]; rfl⟩
      | false =>
        refine .inr (some_applyApi (fun hp => ?_) hstart)
        exact (apiNext_binds hnext hp hdata).resolve_right (by simp [hspawn])
  · by_cases ht : t' = t
    · -- it goes to sleep
      subst ht
      rw [Function.update_self] at ht'
      obtain ⟨hblock, hsame⟩ := apiNext_asleep hnext ht'
      obtain ⟨hcaptured, hpending, hsomebody⟩ := h.block t' captured hblock
      refine ⟨hcaptured, fun _ => ⟨?_, .inl (hpending.same hsame)⟩⟩
      rcases hsomebody with ⟨n, hn⟩ | ⟨t₀, ht₀⟩
      · exact .inl (ho.born_applyApi rfl ⟨n, willNotify_of_precedesFinal hn⟩)
      · have hannounces := announces_of_reserved (reserved_of_binds ht₀)
        refine .inr (some_applyApi (fun hp => ?_) ⟨t₀, hannounces⟩)
        rw [hblock] at hp
        cases hp
    · rw [Function.update_of_ne ht] at ht'
      obtain ⟨hcaptured, hsleeps⟩ := h.asleep t' captured ht'
      refine ⟨hcaptured, fun hmem => ?_⟩
      rw [World.applyApi_impl] at hmem ⊢
      have hcv : r.impl.firstSampleCv ≠ [] := List.ne_nil_of_mem hmem
      obtain ⟨hheralded, hnow⟩ := hsleeps (apiNext_firstSampleCv hnext ht hmem).1
      refine ⟨?_, ?_⟩
      · exact hheralded.imp (ho.born_applyApi rfl) (announces_applyApi hnext hcv)
      rcases apiNext_sameWait hnext with hsame | ⟨-, -, hannounces⟩
      · exact hnow.imp (·.same hsame) fun hnow =>
          hnow.imp (ho.born_applyApi rfl) (announces_applyApi hnext hcv)
      · exact .inr (.inr ⟨t, by rw [World.applyApi_api, Function.update_self]; exact hannounces⟩)

theorem Attended.run_move (h : Attended w) (ho : Orderly w) (hrecord : RecordOutcomes w)
    (hnext : runNext config w n c (w.workers n) (w.workers n).pc = some r)
    (htake : canTake w.locks (w.workers n).pc.held
      ((w.workers n).pc.needs ++ r.worker.pc.held) = true) :
    Attended (w.applyRun n r) := by
  have hidle := ho.nested.idle_of_runNext hnext
  constructor <;> intro t captured ht <;> rw [World.applyRun_api] at ht <;>
    (have hne : t ≠ .worker n := by rintro rfl; rw [hidle] at ht; cases ht)
  · obtain ⟨hcaptured, hpending, hsomebody⟩ := h.block t captured ht
    have hlock : w.locks .data = some t :=
      (ho.locked .data t).mpr (.inl (by simp [ht, ApiPc.held, WaitPc.held]))
    have hdata : .data ∉ (w.workers n).pc.needs := fun hneeds =>
      hne (ho.locked.owner_run htake (.inr hneeds) hlock)
    have hsame := (runNext_waitStep hnext).wait.resolve_right fun h => hdata h.1
    refine ⟨hcaptured, hpending.same hsame, hsomebody.imp_left (some_applyRun fun hp => ?_)⟩
    exact runNext_precedesFinal hnext hp hpending.faulted hdata (hrecord n)
  · obtain ⟨hcaptured, hsleeps⟩ := h.asleep t captured ht
    refine ⟨hcaptured, fun hmem => ?_⟩
    rw [World.applyRun_impl] at hmem ⊢
    have hcv : r.impl.firstSampleCv ≠ [] := List.ne_nil_of_mem hmem
    obtain ⟨hheralded, hnow⟩ := hsleeps ((runNext_backoff hnext).1 t hne hmem)
    constructor
    · refine hheralded.imp_left (some_applyRun fun hp => ?_)
      exact (runNext_willNotify hnext hp (hrecord n)).resolve_right hcv
    rcases (runNext_waitStep hnext).wait with hsame | ⟨-, hannounces⟩
    · refine hnow.imp (·.same hsame) fun hnow => hnow.imp_left (some_applyRun fun hp => ?_)
      exact absurd (runNext_announces hnext hp) hcv
    · refine .inr (.inl ⟨n, ?_⟩)
      rw [World.applyRun_workers, Function.update_self]
      exact hannounces

theorem Attended.move (h : Attended w) (hg : Grounded w) (ho : Orderly w)
    (hrecord : RecordOutcomes w) (hm : Moved config w w' l) : Attended w' := by
  cases hm with
  | tick ticks => exact ⟨h.block, h.asleep⟩
  | spurious t =>
    refine ⟨?_, fun t' captured ht' => ?_⟩
    · intro t' captured ht'
      obtain ⟨hcaptured, hpending, hsomebody⟩ := h.block t' captured ht'
      exact ⟨hcaptured, hpending.same ⟨rfl, rfl, id⟩, hsomebody⟩
    · obtain ⟨hcaptured, hsleeps⟩ := h.asleep t' captured ht'
      refine ⟨hcaptured, fun hmem => ?_⟩
      obtain ⟨hheralded, hnow⟩ := hsleeps (List.mem_filter.mp hmem).1
      exact ⟨hheralded, hnow.imp_left (·.same ⟨rfl, rfl, id⟩)⟩
  | call t call hidle hmay =>
    constructor <;> intro t' captured ht' <;> rw [World.enter_api] at ht' <;>
      by_cases ht : t' = t
    · subst ht
      rw [Function.update_self] at ht'
      cases call <;> cases ht'
    · rw [Function.update_of_ne ht] at ht'
      obtain ⟨hcaptured, hpending, hsomebody⟩ := h.block t' captured ht'
      exact ⟨hcaptured, hpending, hsomebody.imp_right (enter_other hidle rfl)⟩
    · subst ht
      rw [Function.update_self] at ht'
      cases call <;> cases ht'
    · rw [Function.update_of_ne ht] at ht'
      obtain ⟨hcaptured, hsleeps⟩ := h.asleep t' captured ht'
      refine ⟨hcaptured, fun hmem => ?_⟩
      obtain ⟨hheralded, hnow⟩ := hsleeps hmem
      exact ⟨hheralded.imp_right (enter_other hidle rfl),
        hnow.imp_right fun hnow => hnow.imp_right (enter_other hidle rfl)⟩
  | run n c r hnext htake => exact h.run_move ho hrecord hnext htake
  | api t c r hnext htake => exact h.api hg ho hnext htake

theorem Reachable.attended (h : Reachable config w l) : Attended w :=
  h.induction (I := fun v _ => Attended v)
    (fun _ => ⟨(fun _ _ h => by cases h), fun _ _ h => by cases h⟩)
    fun hv hi hm => hi.move hv.grounded hv.orderly hv.recordOutcomes hm

/-- In any state that can be reached, while a `wait_for_first_sample` sleeps: somebody has a
notification still to make that wakes it; and once its predicate holds, the notification comes in
the next steps of a thread that waits for nothing but mutexes, or from a worker that has been told
to stop. -/
theorem first_sample_wait_attended (h : Reachable config w l)
    (ht : w.api t = .wait (.asleep captured)) (hasleep : t ∈ w.impl.firstSampleCv) :
    Heralded w ∧ (w.impl.waitOver captured = true →
      HeraldedNow w ∨ w.impl.stopping = true ∧ ∃ n, (w.workers n).pc.willNotify = true) := by
  obtain ⟨hheralded, hnow⟩ := (h.attended.asleep t captured ht).2 hasleep
  refine ⟨hheralded, fun hover => ?_⟩
  rcases hnow with hpending | hnow
  · have hstop : w.impl.stopping = true := by
      simpa [Impl.waitOver, hpending.generation, hpending.delivered, hpending.faulted] using hover
    rcases hheralded with hworker | hstart
    · exact .inr ⟨hstop, hworker⟩
    · exact .inl (.inr hstart)
  · exact .inl hnow

end

/-- The generation for which a thread sleeps in `wait_for_first_sample`. -/
def ApiPc.sleepsFor : ApiPc D → Option Nat
  | .wait (.asleep captured) => some captured
  | _ => none

theorem sleepsFor_some {p : ApiPc D} (h : p.sleepsFor = some captured) :
    p = .wait (.asleep captured) := by
  unfold ApiPc.sleepsFor at h
  split at h <;> cases h
  rfl

/-- A wait that goes to sleep after the notification of a `stop`. -/
def overtakenWait : World Rat × List (Event Rat) :=
  (machine (demoConfig .failStop)).perform (World.initial 1)
    (startActions (.client 0) ++
      [.call (.client 1) .waitForFirstSample, .api (.client 1) .go, .call (.client 2) .stop,
        .api (.client 2) .go, .api (.client 2) .go, .api (.client 1) .go])

theorem first_sample_wait_attended_overtakenWait :
    .client 1 ∈ overtakenWait.1.impl.firstSampleCv ∧
      overtakenWait.1.impl.waitOver 1 = true ∧
      (HeraldedNow overtakenWait.1 ∨ overtakenWait.1.impl.stopping = true ∧
        ∃ n, (overtakenWait.1.workers n).pc.willNotify = true) := by
  have hreach : Reachable (demoConfig .failStop) overtakenWait.1 overtakenWait.2 :=
    ⟨1, Machine.run_perform (by decide +kernel)⟩
  have hat : overtakenWait.1.api (.client 1) = .wait (.asleep 1) :=
    sleepsFor_some (by decide +kernel)
  have hasleep : .client 1 ∈ overtakenWait.1.impl.firstSampleCv := by decide +kernel
  have hover : overtakenWait.1.impl.waitOver 1 = true := by decide +kernel
  exact ⟨hasleep, hover, (first_sample_wait_attended hreach hat hasleep).2 hover⟩

end NetFT.Client
