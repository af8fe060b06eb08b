import NetFT.Client.Faults

/-! A requested stop is not reported as a failure. Once an operation of a session has returned
with `stopping` set, the worker is doomed: it looks at the flag before it reports anything, ends
the session as stopped, and begins no other one. Only a first deadline that is out of the range of
the steady clock makes it leave the session without an outcome. -/

namespace NetFT.Client
open Detail Library

variable {D : Type}

/-- The positions at which discovery, the connection, the first send or a receive is under way. -/
def RunPc.operates : RunPc D → Bool
  | .session .discover | .session .connect | .session .sendStart | .session (.receive _)
  | .session (.poll _) | .session .pollCheck | .session .recv => true
  | _ => false

/-- The positions at which such an operation has just returned or thrown. -/
def RunPc.returned : RunPc D → Bool
  | .session (.apply _) | .session (.discoverFailed _) | .session .command
  | .session (.socketFailed _) | .session .trackerReset | .session (.received _) => true
  | _ => false

/-- How many steps the worker is from the end of the session when the flag is set; `0` at the
positions from which it does not look at the flag in time. -/
def RunPc.doom : RunPc D → Nat
  | .session (.discoverFailed _) | .session .checkBeforeConnect | .session .command
  | .session (.socketFailed _) | .session .loop | .session (.received _) => 1
  | .session (.apply _) | .session .firstDeadline => 2
  | .session .trackerReset => 3
  | _ => 0

/-- Between the first send of a session and its receive loop. -/
def RunPc.startsReceiving : RunPc D → Bool
  | .session .trackerReset | .session .firstDeadline => true
  | _ => false

/-- The way of a worker from a stopped session, or from an exception, to its end. -/
def RunPc.ending : RunPc D → Bool
  | .close (.session outcome) | .closeTransport (.session outcome) | .decide outcome =>
    outcome.result = .stopped
  | .raised _ | .close .finish | .closeTransport .finish | .storeExited | .finalFaulted
  | .finalState | .finalNotifyFirst | .finalNotifyLifecycle | .exited => true
  | _ => false

/-- The members in which a failure would be reported. -/
structure SameReport (i i' : Impl D) : Prop where
  timeoutCount : i'.health.timeoutCount = i.health.timeoutCount
  malformedCount : i'.health.malformedCount = i.health.malformedCount
  reconnectCount : i'.health.reconnectCount = i.health.reconnectCount
  lastError : i'.health.lastError = i.health.lastError
  faultLatch : i'.faultLatch = i.faultLatch

theorem SameReport.refl (i : Impl D) : SameReport i i := ⟨rfl, rfl, rfl, rfl, rfl⟩

theorem SameReport.trans {i i' i'' : Impl D} (h : SameReport i i') (h' : SameReport i' i'') :
    SameReport i i'' :=
  ⟨h'.timeoutCount.trans h.timeoutCount, h'.malformedCount.trans h.malformedCount,
    h'.reconnectCount.trans h.reconnectCount, h'.lastError.trans h.lastError,
    h'.faultLatch.trans h.faultLatch⟩

/-- The events in which a failure, or another session, would show. -/
def Event.reports : Event D → Bool
  | .sessionBegan _ | .published .. => true
  | .sessionEnded _ outcome => outcome.result ≠ .stopped
  | _ => false

def Event.sends : Event D → Bool
  | .sent .. => true
  | _ => false

variable {config : Config D} {w w' : World D} {t : Tid} {n : Nat} {c : Choice D}

theorem doom_of_returned {p : RunPc D} (h : p.returned = true) : 0 < p.doom := by
  cases p with
  | session q => cases q <;> first | (simp [RunPc.doom]; done) | cases h
  | _ => cases h

theorem doom_of_ending {p : RunPc D} (h : p.ending = true) : p.doom = 0 := by
  cases p with
  | session q => cases h
  | _ => rfl

theorem trackerReset_of_returned {p : RunPc D} (h : p.returned = true)
    (hs : p.startsReceiving = true) : p = .session .trackerReset := by
  cases p with
  | session q => cases q <;> first | rfl | (cases hs; done) | cases h
  | _ => cases h

/-- A `start` past its reset has no worker beside it. -/
theorem Orderly.no_snapshot (ho : Orderly w) (hn : w.executing n) (t : Tid) :
    (w.api t).snapshot = none := by
  by_contra hne
  have hrole : (w.api t).role = .quiet ∨ (w.api t).role = .cleared := by
    cases hp : w.api t with
    | start callback p =>
      rw [hp] at hne
      cases p with
      | rollback q => cases q <;> simp [ApiPc.role, StartPc.role, RollbackPc.role]
      | clearStopping | clearExited | create => simp [ApiPc.role, StartPc.role]
      | _ => exact absurd rfl hne
    | _ => rw [hp] at hne; exact absurd rfl hne
  obtain ⟨hworker, hjoining⟩ := ho.life.resting t hrole
  exact ho.life.not_executing hworker hjoining n hn

/-! ## The worker -/

/-- A step of a doomed worker. -/
structure DoomedStep (config : Config D) (w : World D) (n : Nat) (p : RunPc D) (r : RunNext D) :
    Prop where
  report : SameReport w.impl r.impl
  events : ∀ e ∈ r.events, e.reports = false
  doomed : 0 < r.worker.pc.doom ∧ r.worker.pc.doom < p.doom ∨ r.worker.pc.ending = true
  starts : r.worker.pc.startsReceiving = true → p.startsReceiving = true
  ended : 0 < p.doom → r.worker.pc.doom = 0 →
    p = .session .firstDeadline ∧ checkedDeadline w.clock config.receiveTimeout = none ∨
    ∃ outcome, .sessionEnded n outcome ∈ r.events ∧ outcome.result = .stopped
  session : r.impl.sessionStarted = true → w.impl.sessionStarted = true
  sends : w.impl.sessionStarted = false → ∀ e ∈ r.events, e.sends = false

/-- The worker ends the session as stopped. -/
theorem DoomedStep.stops {p : RunPc D} {worker : Worker D} {message : String} :
    DoomedStep config w n p (endSession w.impl worker n .stopped message) where
  report := .refl _
  events := by simp [Event.reports]
  doomed := .inr rfl
  starts := by simp [RunPc.startsReceiving]
  ended := fun _ _ => .inr ⟨_, List.mem_singleton_self _, rfl⟩
  session := id
  sends := by simp [Event.sends]

/-- The worker goes on towards the place where it looks at the flag. -/
theorem DoomedStep.goes {p : RunPc D} {r : RunNext D} (hreport : SameReport w.impl r.impl)
    (hevents : r.events = []) (hdoom : 0 < r.worker.pc.doom ∧ r.worker.pc.doom < p.doom)
    (hstarts : r.worker.pc.startsReceiving = true → p.startsReceiving = true)
    (hsession : r.impl.sessionStarted = w.impl.sessionStarted) : DoomedStep config w n p r where
  report := hreport
  events := by simp [hevents]
  doomed := .inl hdoom
  starts := hstarts
  ended := fun _ h0 => by omega
  session := by rw [hsession]; exact id
  sends := by simp [hevents]

/-- The worker goes on towards its end. -/
theorem DoomedStep.leaves {p : RunPc D} {r : RunNext D} (hp : p.doom = 0)
    (hreport : SameReport w.impl r.impl) (hevents : ∀ e ∈ r.events, e.reports = false)
    (hending : r.worker.pc.ending = true)
    (hsession : r.impl.sessionStarted = true → w.impl.sessionStarted = true)
    (hsends : w.impl.sessionStarted = false → ∀ e ∈ r.events, e.sends = false) :
    DoomedStep config w n p r where
  report := hreport
  events := hevents
  doomed := .inr hending
  starts := fun hr => by
    cases hpc : r.worker.pc with
    | session q => rw [hpc] at hending; cases hending
    | _ => rw [hpc] at hr; cases hr
  ended := fun h0 => by omega
  session := hsession
  sends := hsends

theorem send_not_reports {i : Impl D} {command : Command} {e : Option String}
    {events : List (Event D)} (h : i.send t command c = some (e, events)) :
    ∀ e ∈ events, e.reports = false := by
  unfold Impl.send at h
  split at h
  · cases h; simp
  · cases c <;> cases h <;> simp [Event.reports]

theorem closedEvents_unreported (i : Impl D) :
    ∀ e ∈ i.closedEvents, e.reports = false ∧ e.sends = false := by
  unfold Impl.closedEvents
  split <;> simp [Event.reports, Event.sends]

theorem applyConfiguration_report [DecidableEq D] {i : Impl D}
    (configuration : SensorConfiguration D) :
    SameReport i (i.applyConfiguration configuration) ∧
      (i.applyConfiguration configuration).sessionStarted = i.sessionStarted := by
  unfold Impl.applyConfiguration
  split
  · split <;> exact ⟨⟨rfl, rfl, rfl, rfl, rfl⟩, rfl⟩
  · exact ⟨⟨rfl, rfl, rfl, rfl, rfl⟩, rfl⟩

section
variable [DecidableEq D] [Double D] {worker : Worker D} {r : RunNext D}

theorem sessionNext_doomed {p : SessionPc D} (hnext : sessionNext config w n c worker p = some r)
    (hp : 0 < (RunPc.session p).doom) (hstop : w.impl.stopping = true) :
    DoomedStep config w n (.session p) r := by
  cases p with
  | discoverFailed | socketFailed =>
    simp only [sessionNext, hstop, if_true] at hnext
    cases hnext
    exact .stops
  | checkBeforeConnect | command | loop | received =>
    simp only [sessionNext, hstop, if_true] at hnext
    cases hnext
    exact .stops
  | apply configuration =>
    cases hnext
    have happly := applyConfiguration_report (i := w.impl) configuration
    exact .goes happly.1 rfl ⟨by simp [RunPc.doom], by simp [RunPc.doom]⟩
      (by simp [RunPc.startsReceiving]) happly.2
  | trackerReset =>
    cases hnext
    exact .goes ⟨rfl, rfl, rfl, rfl, rfl⟩ rfl ⟨by simp [RunPc.doom], by simp [RunPc.doom]⟩
      (fun _ => rfl) rfl
  | firstDeadline =>
    simp only [sessionNext] at hnext
    split at hnext <;> cases hnext
    · exact {
        report := .refl _
        events := by simp
        doomed := .inr rfl
        starts := fun _ => rfl
        ended := fun _ _ => .inl ⟨rfl, ‹_›⟩
        session := id
        sends := by simp }
    · exact .goes (.refl _) rfl ⟨by simp [RunPc.doom], by simp [RunPc.doom]⟩ (fun _ => rfl) rfl
  | _ => simp [RunPc.doom] at hp

theorem runNext_doomed {p : RunPc D} (hnext : runNext config w n c worker p = some r)
    (hp : 0 < p.doom ∨ p.ending = true) (hstop : w.impl.stopping = true) :
    DoomedStep config w n p r := by
  cases p with
  | session p =>
    rcases hp with hp | hp
    · exact sessionNext_doomed hnext hp hstop
    · cases hp
  | close context =>
    have hctx : (RunPc.closeTransport context : RunPc D).ending = true := by
      rcases hp with hp | hp
      · simp [RunPc.doom] at hp
      · cases context <;> exact hp
    simp only [runNext] at hnext
    split at hnext
    · split at hnext <;> cases hnext
      rename_i hsession _ _ _ hsend
      exact .leaves rfl ⟨rfl, rfl, rfl, rfl, rfl⟩ (send_not_reports hsend) hctx (by simp)
        (by simp [hsession])
    · cases hnext
      exact .leaves rfl (.refl _) (by simp) hctx id (by simp)
  | closeTransport context =>
    have hevents := closedEvents_unreported w.impl
    cases hnext
    refine .leaves rfl ⟨rfl, rfl, rfl, rfl, rfl⟩ (fun e he => (hevents e he).1) ?_ id
      fun _ e he => (hevents e he).2
    rcases hp with hp | hp
    · simp [RunPc.doom] at hp
    · cases context <;> exact hp
  | decide outcome =>
    have houtcome : outcome.result = .stopped := by simpa [RunPc.doom, RunPc.ending] using hp
    simp only [runNext, houtcome, ne_eq, not_true_eq_false, false_and, if_false, true_or,
      if_true] at hnext
    cases hnext
    exact .leaves rfl (.refl _) (by simp) rfl id (by simp)
  | raised message =>
    simp only [runNext, hstop, if_true] at hnext
    cases hnext
    exact .leaves rfl (.refl _) (by simp) rfl id (by simp)
  | finalFaulted =>
    cases hnext
    refine .leaves rfl (.refl _) (by simp) ?_ id (by simp)
    dsimp only
    split <;> rfl
  | storeExited | finalState | finalNotifyFirst =>
    cases hnext
    exact .leaves rfl ⟨rfl, rfl, rfl, rfl, rfl⟩ (by simp) rfl id (by simp)
  | finalNotifyLifecycle =>
    cases hnext
    exact .leaves rfl ⟨rfl, rfl, rfl, rfl, rfl⟩ (by simp [Event.reports]) rfl id
      (by simp [Event.sends])
  | exited => cases hnext
  | _ => simp [RunPc.doom, RunPc.ending] at hp

/-- The operations themselves report nothing. -/
theorem runNext_operates {p : RunPc D} (hnext : runNext config w n c worker p = some r)
    (hp : p.operates = true) :
    SameReport w.impl r.impl ∧ (∀ e ∈ r.events, e.reports = false) ∧
      (p = .session .connect → r.impl.sessionStarted = w.impl.sessionStarted ∧
        ∀ e ∈ r.events, e.sends = false) := by
  cases p with
  | session p =>
    cases p with
    | discover =>
      simp only [runNext, sessionNext] at hnext
      (repeat' split at hnext) <;> cases hnext <;>
        exact ⟨.refl _, by simp [Event.reports], by simp⟩
    | connect =>
      simp only [runNext, sessionNext] at hnext
      split at hnext <;> cases hnext
      · refine ⟨⟨rfl, rfl, rfl, rfl, rfl⟩, fun e he => ?_, fun _ => ⟨rfl, fun e he => ?_⟩⟩
        · rcases List.mem_append.mp he with he | he
          · exact (closedEvents_unreported w.impl e he).1
          · rw [List.mem_singleton.mp he]; rfl
        · rcases List.mem_append.mp he with he | he
          · exact (closedEvents_unreported w.impl e he).2
          · rw [List.mem_singleton.mp he]; rfl
      · exact ⟨.refl _, by simp, fun _ => ⟨rfl, by simp⟩⟩
    | sendStart =>
      simp only [runNext, sessionNext] at hnext
      split at hnext <;> cases hnext <;>
        exact ⟨⟨rfl, rfl, rfl, rfl, rfl⟩, send_not_reports ‹_›, by simp⟩
    | receive | poll | pollCheck | recv =>
      simp only [runNext, sessionNext] at hnext
      (repeat' split at hnext) <;> cases hnext <;> exact ⟨.refl _, by simp, by simp⟩
    | _ => cases hp
  | _ => cases hp

/-- The receive loop is prepared only after the first send. -/
theorem runNext_startsReceiving {p : RunPc D} (hnext : runNext config w n c worker p = some r)
    (hp : p.operates = true) (hr : r.worker.pc.startsReceiving = true) :
    p = .session .sendStart := by
  cases p with
  | session p =>
    cases p with
    | sendStart => rfl
    | pollCheck =>
      cases hnext
      dsimp only at hr
      split at hr <;> cases hr
    | discover | connect | receive | poll | recv =>
      simp only [runNext, sessionNext] at hnext
      (repeat' split at hnext) <;> cases hnext <;> cases hr
    | _ => cases hp
  | _ => cases hp

end

/-! ## The entry points -/

/-- A step of an entry point, outside of the part of `start` that follows its reset. -/
structure StoppedStep (w : World D) (p : ApiPc D) (r : ApiNext D) : Prop where
  report : SameReport w.impl r.impl
  stopping : w.impl.stopping = true → r.impl.stopping = true
  snapshot : r.pc.snapshot = none
  spawn : r.spawn = false
  session : r.impl.sessionStarted = true → w.impl.sessionStarted = true
  sends : w.impl.sessionStarted = false → p.biasing = false → ∀ e ∈ r.events, e.sends = false

theorem StoppedStep.silent {p : ApiPc D} {r : ApiNext D} (hreport : SameReport w.impl r.impl)
    (hstopping : r.impl.stopping = w.impl.stopping ∨ r.impl.stopping = true)
    (hsnapshot : r.pc.snapshot = none)
    (hspawn : r.spawn = false) (hsession : r.impl.sessionStarted = w.impl.sessionStarted)
    (hevents : ∀ e ∈ r.events, e.sends = false) : StoppedStep w p r where
  report := hreport
  stopping := fun hs => hstopping.elim (fun h => h.trans hs) id
  snapshot := hsnapshot
  spawn := hspawn
  session := by rw [hsession]; exact id
  sends := fun _ _ => hevents

theorem apiNext_stopped {p : ApiPc D} {r : ApiNext D} (hnext : apiNext w t c p = some r)
    (hp : p.resets = false) (hsnap : p.snapshot = none) : StoppedStep w p r := by
  cases apiNext_step hnext with
  | stopFlag => exact .silent ⟨rfl, rfl, rfl, rfl, rfl⟩ (.inr rfl) rfl rfl rfl (by simp)
  | stopCommand hstarted => exact ⟨⟨rfl, rfl, rfl, rfl, rfl⟩, id, rfl, rfl, by simp, by simp [hstarted]⟩
  | biasSent | biasFailed | biasRestarted | biasRestartFailed =>
    exact ⟨.refl _, id, rfl, rfl, id, fun _ hb => by cases hb⟩
  | biasReset => exact ⟨⟨rfl, rfl, rfl, rfl, rfl⟩, id, rfl, rfl, id, fun _ hb => by cases hb⟩
  | dataReset => cases hp
  | clearStopping | clearExited | created | notCreated | rollbackStopping | rollbackExited
  | rollbackRecord | rollbackData | rollbackFault | rollbackNoFault | rollbackPublish
  | rollbackNotifyFirst | rolledBack => simp [ApiPc.snapshot] at hsnap
  | _ => exact .silent ⟨rfl, rfl, rfl, rfl, rfl⟩ (.inl rfl) rfl rfl rfl (by simp [Event.sends])

theorem byApi_not_reports {e : Event D} (h : e.byApi = true) : e.reports = false := by
  cases e <;> first | rfl | cases h

/-! ## Runs -/

/-- Worker `n` is doomed, and no other one will be created before the next reset. -/
structure Doomed (n : Nat) (w : World D) : Prop where
  stopping : w.impl.stopping = true
  worker : 0 < (w.workers n).pc.doom ∨ (w.workers n).pc.ending = true
  others : ∀ k, k ≠ n → ¬ w.executing k
  start : ∀ t, (w.api t).snapshot = none

section
variable [DecidableEq D] [Double D]

/-- What a step leaves of a doomed worker and its report. -/
structure DoomedMove (config : Config D) (n : Nat) (w : World D) (a : Action D) (w' : World D)
    (l : List (Event D)) : Prop where
  doomed : Doomed n w'
  report : SameReport w.impl w'.impl
  events : ∀ e ∈ l, e.reports = false
  starts : (w'.workers n).pc.startsReceiving = true → (w.workers n).pc.startsReceiving = true
  ended : 0 < (w.workers n).pc.doom → 0 < (w'.workers n).pc.doom ∨
    (∃ c, a = .run n c) ∧ (w.workers n).pc = .session .firstDeadline ∧
      checkedDeadline w.clock config.receiveTimeout = none ∧ (w'.workers n).pc.ending = true ∨
    ∃ outcome, .sessionEnded n outcome ∈ l ∧ outcome.result = .stopped
  ending : (w.workers n).pc.ending = true → (w'.workers n).pc.ending = true
  session : w.impl.sessionStarted = false → w'.impl.sessionStarted = false
  sends : w.impl.sessionStarted = false → ∀ e ∈ l, e.sends = false

theorem Doomed.move {a : Action D} (h : Doomed n w) (hw : Reachable config w k)
    (hok : NoReset w a) (hstep : step config w a = some (w', l)) :
    DoomedMove config n w a w' l := by
  have hsession : ∀ {i : Impl D}, (i.sessionStarted = true → w.impl.sessionStarted = true) →
      w.impl.sessionStarted = false → i.sessionStarted = false := fun hi hs =>
    eq_false_of_ne_true fun ht => by simp [hi ht] at hs
  cases a with
  | tick | spurious =>
    cases hstep
    exact ⟨⟨h.stopping, h.worker, h.others, h.start⟩, ⟨rfl, rfl, rfl, rfl, rfl⟩, by simp, id, .inl,
      id, id, by simp⟩
  | call t call =>
    simp only [step] at hstep
    (repeat' split at hstep) <;> cases hstep
    refine ⟨⟨h.stopping, h.worker, h.others, fun t' => ?_⟩, .refl _, by simp [Event.reports], id,
      .inl, id, id, by simp [Event.sends]⟩
    by_cases ht : t' = t
    · rw [World.enter_api, ht, Function.update_self]
      cases call <;> rfl
    · rw [World.enter_api, Function.update_of_ne ht]
      exact h.start t'
  | api t c =>
    obtain ⟨r, hnext, -, rfl, rfl⟩ := step_api hstep
    have hs := apiNext_stopped hnext hok (h.start t)
    have hworkers : (w.applyApi config t r).workers = w.workers := by
      simp [World.applyApi, hs.spawn]
    obtain ⟨m, -, hwire⟩ := hw.onWire
    refine ⟨⟨hs.stopping h.stopping, by rw [hworkers]; exact h.worker, ?_, fun t' => ?_⟩, hs.report,
      fun e he => byApi_not_reports (apiNext_events hnext e he), ?_, ?_, ?_,
      hsession hs.session, fun hf => hs.sends hf (hwire.no_biasing hf t)⟩
    · unfold World.executing
      rw [hworkers]
      exact h.others
    · by_cases ht : t' = t
      · rw [World.applyApi_api, ht, Function.update_self]
        exact hs.snapshot
      · rw [World.applyApi_api, Function.update_of_ne ht]
        exact h.start t'
    · rw [hworkers]
      exact id
    · rw [hworkers]
      exact .inl
    · rw [hworkers]
      exact id
  | run m c =>
    obtain ⟨r, hnext, -, rfl, rfl⟩ := step_run hstep
    obtain rfl : m = n := by
      by_contra hne
      exact h.others m hne (executing_of_next hnext)
    have hd := runNext_doomed hnext h.worker h.stopping
    refine ⟨⟨(runNext_control hnext).stopping.trans h.stopping, ?_, fun k hk => ?_, h.start⟩,
      hd.report, hd.events, ?_, fun hdoom => ?_, fun hending => ?_, hsession hd.session, hd.sends⟩
    · rw [World.applyRun_workers, Function.update_self]
      exact hd.doomed.imp_left And.left
    · rw [World.executing, World.applyRun_workers, Function.update_of_ne hk]
      exact h.others k hk
    · rw [World.applyRun_workers, Function.update_self]
      exact hd.starts
    · rw [World.applyRun_workers, Function.update_self]
      rcases Nat.eq_zero_or_pos r.worker.pc.doom with h0 | h0
      · have hending := hd.doomed.resolve_left fun hpos => by omega
        exact .inr ((hd.ended hdoom h0).imp_left fun hlost => ⟨⟨c, rfl⟩, hlost.1, hlost.2, hending⟩)
      · exact .inl h0
    · rw [World.applyRun_workers, Function.update_self]
      have h0 := doom_of_ending hending
      exact hd.doomed.resolve_left fun hpos => by omega

/-- An operation that returns with the flag set dooms the worker. -/
theorem doomed_of_returned (h : Reachable config w l) (hstop : w.impl.stopping = true)
    (hstep : step config w (.run n c) = some (w', l')) (hop : (w.workers n).pc.operates = true)
    (hret : (w'.workers n).pc.returned = true) :
    Doomed n w' ∧ 0 < (w'.workers n).pc.doom ∧ SameReport w.impl w'.impl ∧
      (∀ e ∈ l', e.reports = false) ∧
      ((w'.workers n).pc.startsReceiving = true → (w.workers n).pc = .session .sendStart) ∧
      ((w.workers n).pc = .session .connect →
        w'.impl.sessionStarted = false ∧ ∀ e ∈ l', e.sends = false) := by
  obtain ⟨r, hnext, -, rfl, rfl⟩ := step_run hstep
  have ho := h.orderly
  have hrun := executing_of_next hnext
  have hothers : ∀ k, k ≠ n → ¬ w.executing k := fun k hk hkr => by
    have hlast := ho.life.last_of_executing hkr
    have := ho.life.last_of_executing hrun
    omega
  obtain ⟨hreport, hevents, hconnect⟩ := runNext_operates hnext hop
  rw [World.applyRun_workers, Function.update_self] at hret ⊢
  have hdoom := doom_of_returned hret
  refine ⟨⟨(runNext_control hnext).stopping.trans hstop, ?_, fun k hk => ?_, fun t => ?_⟩, hdoom,
    hreport, hevents, runNext_startsReceiving hnext hop, fun hc => ?_⟩
  · rw [World.applyRun_workers, Function.update_self]
    exact .inl hdoom
  · rw [World.executing, World.applyRun_workers, Function.update_of_ne hk]
    exact hothers k hk
  · exact ho.no_snapshot hrun t
  · obtain ⟨hsession, hsends⟩ := hconnect hc
    have hshut : ∀ k, (w.workers k).pc.shut = true := fun k => by
      by_cases hk : k = n
      · rw [hk, hc]; rfl
      · exact shut_of_not_running (eq_false_of_ne_true (hothers k hk))
    exact ⟨hsession.trans (h.shut.closed hshut).2, hsends⟩

/-- Somewhere in the run the worker found its first deadline out of range, and it is on the way to
its end. -/
structure LosesDeadline (config : Config D) (n : Nat) (w : World D) (k : List (Event D))
    (v : World D) : Prop where
  ending : (v.workers n).pc.ending = true
  deadline : ∃ k₁ u c u' m k₂, (machine config).RunIf NoReset w k₁ u ∧
    (u.workers n).pc = .session .firstDeadline ∧
    checkedDeadline u.clock config.receiveTimeout = none ∧
    step config u (.run n c) = some (u', m) ∧ (machine config).RunIf NoReset u' k₂ v ∧
    k = k₁ ++ m ++ k₂

/-- What a run that follows such an operation has come to. -/
structure Reported (config : Config D) (n : Nat) (w w' : World D) (k : List (Event D))
    (v : World D) : Prop where
  run : (machine config).RunIf NoReset w' k v
  doomed : Doomed n v
  report : SameReport w.impl v.impl
  events : ∀ e ∈ k, e.reports = false
  starts : (v.workers n).pc.startsReceiving = true →
    (w.workers n).pc = .session .sendStart ∧ (w'.workers n).pc = .session .trackerReset
  ended : (∃ outcome, .sessionEnded n outcome ∈ k ∧ outcome.result = .stopped) ∨
    0 < (v.workers n).pc.doom ∨ (w.workers n).pc = .session .sendStart ∧
      (w'.workers n).pc = .session .trackerReset ∧ LosesDeadline config n w' k v
  connect : (w.workers n).pc = .session .connect →
    v.impl.sessionStarted = false ∧ ∀ e ∈ k, e.sends = false

theorem LosesDeadline.step {u : World D} {a : Action D} {k m : List (Event D)}
    (h : LosesDeadline config n w k v) (hok : NoReset v a)
    (hstep : Client.step config v a = some (u, m))
    (hending : (u.workers n).pc.ending = true) : LosesDeadline config n w (k ++ m) u := by
  refine ⟨hending, ?_⟩
  obtain ⟨k₁, u₁, c, u₂, m₁, k₂, hbefore, hpc, hover, hfound, hafter, rfl⟩ := h.deadline
  exact ⟨k₁, u₁, c, u₂, m₁, k₂ ++ m, hbefore, hpc, hover, hfound, hafter.tail hok hstep,
    List.append_assoc ..⟩

theorem Reported.step {u : World D} {a : Action D} {k m : List (Event D)}
    (h : Reported config n w w' k v) (hw : Reachable config w' l) (hok : NoReset v a)
    (hstep : Client.step config v a = some (u, m)) : Reported config n w w' (k ++ m) u := by
  have hm := h.doomed.move (hw.run h.run.run) hok hstep
  refine ⟨h.run.tail hok hstep, hm.doomed, h.report.trans hm.report, ?_,
    fun hs => h.starts (hm.starts hs), ?_, fun hc => ?_⟩
  · exact fun e he => (List.mem_append.mp he).elim (h.events e) (hm.events e)
  · rcases h.ended with ⟨outcome, ho, hres⟩ | hpos | ⟨hsend, hsent, hlost⟩
    · exact .inl ⟨outcome, List.mem_append_left _ ho, hres⟩
    · rcases hm.ended hpos with hpos | ⟨⟨c, rfl⟩, hpc, hover, hending⟩ | ⟨outcome, ho, hres⟩
      · exact .inr (.inl hpos)
      · -- the deadline is looked for at this step
        obtain ⟨hsend, hsent⟩ := h.starts (by rw [hpc]; rfl)
        exact .inr (.inr ⟨hsend, hsent, hending, k, v, c, u, m, [], h.run, hpc, hover, hstep,
          .refl, (List.append_nil _).symm⟩)
      · exact .inl ⟨outcome, List.mem_append_right _ ho, hres⟩
    · exact .inr (.inr ⟨hsend, hsent, hlost.step hok hstep (hm.ending hlost.ending)⟩)
  · obtain ⟨hs, hsends⟩ := h.connect hc
    exact ⟨hm.session hs, fun e he => (List.mem_append.mp he).elim (hsends e) (hm.sends hs e)⟩

/-- If `stopping` is set when an operation of a session returns or throws, then up to the next
reset no failure is reported on account of it, no fault is published and no session begins. The
session ends as stopped after a few more steps of its worker; or, after a first send that
succeeded, the worker finds its first deadline out of range and ends without an outcome. A
connection that returns so is followed by no command. -/
theorem stop_reported (h : Reachable config w l) (hstop : w.impl.stopping = true)
    (hstep : step config w (.run n c) = some (w', l')) (hop : (w.workers n).pc.operates = true)
    (hret : (w'.workers n).pc.returned = true) (hrun : (machine config).RunIf NoReset w' k v) :
    SameReport w.impl w'.impl ∧ SameReport w.impl v.impl ∧
    (∀ m, .sessionBegan m ∉ l' ++ k) ∧ (∀ m code, .published m code ∉ l' ++ k) ∧
    (∀ m outcome, .sessionEnded m outcome ∈ l' ++ k → outcome.result = .stopped) ∧
    ((∃ outcome, .sessionEnded n outcome ∈ k ∧ outcome.result = .stopped) ∨
      0 < (v.workers n).pc.doom ∨
      (w.workers n).pc = .session .sendStart ∧ (w'.workers n).pc = .session .trackerReset ∧
        LosesDeadline config n w' k v) ∧
    (∀ c u m, 0 < (v.workers n).pc.doom → step config v (.run n c) = some (u, m) →
      (u.workers n).pc.doom < (v.workers n).pc.doom) ∧
    ((w.workers n).pc = .session .connect → ∀ e ∈ l' ++ k, e.sends = false) := by
  obtain ⟨hdoomed, hdoom, hreport, hevents, hstarts, hconnect⟩ :=
    doomed_of_returned h hstop hstep hop hret
  have h' : Reachable config w' (l ++ l') := h.step hstep
  have hfirst : Reported config n w w' [] w' := by
    refine ⟨.refl, hdoomed, hreport, by simp, fun hs => ⟨hstarts hs, ?_⟩, .inr (.inl hdoom),
      fun hc => ⟨(hconnect hc).1, by simp⟩⟩
    exact trackerReset_of_returned hret hs
  have hall : Reported config n w w' k v :=
    hrun.invariant (I := fun v k => Reported config n w w' k v) hfirst
      fun _ hi hok hstep => hi.step h' hok hstep
  have hquiet : ∀ e ∈ l' ++ k, e.reports = false := fun e he =>
    (List.mem_append.mp he).elim (hevents e) (hall.events e)
  refine ⟨hreport, hall.report, fun m he => by simpa [Event.reports] using hquiet _ he,
    fun m code he => by simpa [Event.reports] using hquiet _ he,
    fun m outcome he => by simpa [Event.reports] using hquiet _ he, hall.ended,
    fun c u m hpos hu => ?_,
    fun hc e he => (List.mem_append.mp he).elim ((hconnect hc).2 e) ((hall.connect hc).2 e)⟩
  obtain ⟨r, hnext, -, rfl, -⟩ := step_run hu
  rw [World.applyRun_workers, Function.update_self]
  rcases (runNext_doomed hnext (.inl hpos) hall.doomed.stopping).doomed with hd | hd
  · exact hd.2
  · rw [doom_of_ending hd]
    exact hpos

end

/-- A receive timeout that is in range when the client is constructed, one hour after the clock
started, and no longer ten minutes later. -/
def farConfig : Config Rat := { demoConfig .failStop with receiveTimeout := 9223368000 }

/-- A worker before its first send, and a `stop` that has set the flag. -/
def stopDuringSend (config : Config Rat) (clock ticks : Nat) : World Rat × List (Event Rat) :=
  (machine config).perform (World.initial clock)
    (.tick ticks :: startActions (.client 0) ++ List.replicate 6 (.run 0 .go) ++
      [.run 0 .succeeds, .run 0 .go, .call (.client 1) .stop, .api (.client 1) .go])

/-- The send of `stopDuringSend` has succeeded, under `farConfig`. -/
def sendReturned : World Rat × List (Event Rat) :=
  (machine farConfig).perform (stopDuringSend farConfig 3600000000000 600000000000).1
    [.run 0 .succeeds]

/-- The worker of `sendReturned` has ended. -/
def endedWithoutOutcome : World Rat × List (Event Rat) :=
  (machine farConfig).perform sendReturned.1
    (List.replicate 3 (.run 0 .go) ++ .run 0 .succeeds :: List.replicate 6 (.run 0 .go))

def Event.endsSession : Event D → Bool
  | .sessionEnded .. => true
  | _ => false

theorem stop_without_outcome :
    checkedDeadline 3600000000000 farConfig.receiveTimeout ≠ none ∧
    ∃ w l c w' l' k v, Reachable farConfig w l ∧ w.impl.stopping = true ∧
      step farConfig w (.run 0 c) = some (w', l') ∧ (w.workers 0).pc.operates = true ∧
      (w'.workers 0).pc.returned = true ∧ (machine farConfig).RunIf NoReset w' k v ∧
      (v.workers 0).pc.running = false ∧ ∀ n outcome, .sessionEnded n outcome ∉ l' ++ k := by
  refine ⟨by decide +kernel, (stopDuringSend farConfig 3600000000000 600000000000).1,
    (stopDuringSend farConfig 3600000000000 600000000000).2, .succeeds, sendReturned.1,
    sendReturned.2, endedWithoutOutcome.2, endedWithoutOutcome.1,
    ⟨3600000000000, Machine.run_perform (by decide +kernel)⟩, by decide +kernel,
    step_perform (by decide +kernel), by decide +kernel, by decide +kernel,
    Machine.runIf_perform (World.apiPasses (!·.resets)) (by decide +kernel) fun w a ha => by
        cases a with
        | api t c => simpa [NoReset, World.apiPasses] using ha
        | _ => trivial,
    by decide +kernel, fun n outcome he => ?_⟩
  have hnone : ∀ e ∈ sendReturned.2 ++ endedWithoutOutcome.2, e.endsSession = false := by
    decide +kernel
  cases hnone _ he

/-- The send of `stopDuringSend` has succeeded, with a timeout that stays in range. -/
def sendDone : World Rat × List (Event Rat) :=
  (machine (demoConfig .failStop)).perform (stopDuringSend (demoConfig .failStop) 1 1).1
    [.run 0 .succeeds]

/-- The session of `sendDone` has ended. -/
def stoppedSession : World Rat × List (Event Rat) :=
  (machine (demoConfig .failStop)).perform sendDone.1 (List.replicate 3 (.run 0 .go))

theorem stop_reported_stoppedSession :
    (stoppedSession.1.workers 0).pc.doom = 0 ∧
      (∃ outcome, .sessionEnded 0 outcome ∈ stoppedSession.2 ∧ outcome.result = .stopped) ∧
      ∀ m code, .published m code ∉ sendDone.2 ++ stoppedSession.2 := by
  have h : Reachable (demoConfig .failStop) (stopDuringSend (demoConfig .failStop) 1 1).1
      (stopDuringSend (demoConfig .failStop) 1 1).2 := ⟨1, Machine.run_perform (by decide +kernel)⟩
  have hstep : step (demoConfig .failStop) (stopDuringSend (demoConfig .failStop) 1 1).1
      (.run 0 .succeeds) = some (sendDone.1, sendDone.2) := step_perform (by decide +kernel)
  have hrun : (machine (demoConfig .failStop)).RunIf NoReset sendDone.1 stoppedSession.2
      stoppedSession.1 := Machine.runIf_perform (World.apiPasses (!·.resets)) (by decide +kernel)
      fun w a ha => by
        cases a with
        | api t c => simpa [NoReset, World.apiPasses] using ha
        | _ => trivial
  obtain ⟨-, -, -, hpub, -, -, -, -⟩ :=
    stop_reported h (by decide +kernel) hstep (by decide +kernel) (by decide +kernel) hrun
  exact ⟨by decide +kernel, ⟨⟨.stopped, "", false⟩, by decide +kernel, rfl⟩, hpub⟩

end NetFT.Client
