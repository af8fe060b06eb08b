import NetFT.Client.Attempts
import NetFT.Client.Policy

/-! Runs under `Reconnect`, and the two policies together. No session ends with a fault, so that the
latch stays open for ever and no exception reaches `run`; a worker leaves its loop only with the
stop flag set, and the flag is set by a `stop` that takes effect beside the worker (`Requested`). -/

namespace NetFT.Client
open Detail Library

variable {D : Type} {config : Config D} {w w' : World D} {t t' : Tid} {n k : Nat} {c : Choice D}
  {worker : Worker D} {r : RunNext D} {l l' : List (Event D)} {i i' : Impl D} {v : Provenance D}

/-! ## The latch -/

/-- The latch is open, and no rollback will set it. -/
def Unfaulted (w : World D) : Prop :=
  w.impl.faultLatch = .none ∧ ∀ t p, (w.api t).previous = some p → p.fault = .none

theorem publish_none {message : String} (h : i.faultLatch = .none) :
    (i.publish .none message).faultLatch = .none := by
  simp [Impl.publish, h]

theorem apiNext_unfaulted {p : ApiPc D} {r : ApiNext D} (hnext : apiNext w t c p = some r)
    (h : w.impl.faultLatch = .none) (hs : ∀ q, p.previous = some q → q.fault = .none) :
    r.impl.faultLatch = .none ∧ ∀ q, r.pc.previous = some q → q.fault = .none := by
  cases apiNext_step hnext with
  | save => exact ⟨h, fun _ hq => by cases hq; exact h⟩
  | @recordReset _ previous => exact ⟨h, fun _ hq => by cases hq; exact hs previous rfl⟩
  | @dataReset _ previous => exact ⟨rfl, fun _ hq => by cases hq; exact hs previous rfl⟩
  | clearStopping | clearExited | notCreated | rollbackStopping | rollbackExited
  | rollbackRecord | rollbackData | rollbackNotifyFirst =>
    exact ⟨h, fun _ hq => by cases hq; exact hs _ rfl⟩
  | rollbackFault | rollbackNoFault => exact ⟨rfl, fun _ hq => by cases hq; exact hs _ rfl⟩
  | @rollbackPublish _ previous =>
    refine ⟨?_, fun _ hq => by cases hq; exact hs previous rfl⟩
    simp only [hs previous rfl]
    exact publish_none h
  | _ => exact ⟨h, by simp [ApiPc.previous]⟩

/-! ## A worker under `Reconnect` -/

/-- Where a worker is that cannot fault: what it has left behind says that a stop was requested. -/
def Reconnecting (i : Impl D) : RunPc D → Prop
  | .raised _ | .publish .. | .publishNotifyFirst | .publishNotifyLifecycle => False
  | .close (.session outcome) | .closeTransport (.session outcome) | .decide outcome =>
    outcome.result = .stopped → i.stopping = true
  | .close .finish | .closeTransport .finish | .storeExited | .finalFaulted | .finalState
  | .finalNotifyFirst | .finalNotifyLifecycle => i.stopping = true
  | _ => True

theorem Reconnecting.same {p : RunPc D} (h : Reconnecting i p)
    (hstop : i.stopping = true → i'.stopping = true) : Reconnecting i' p := by
  cases p with
  | close context | closeTransport context =>
    cases context with
    | session outcome => exact fun hresult => hstop (h hresult)
    | finish => exact hstop h
  | decide outcome => exact fun hresult => hstop (h hresult)
  | storeExited | finalFaulted | finalState | finalNotifyFirst | finalNotifyLifecycle =>
    exact hstop h
  | raised | publish | publishNotifyFirst | publishNotifyLifecycle => exact h.elim
  | _ => trivial

theorem afterRecord_reconnecting {outcome : Option SessionResult} {events : List (Event D)}
    (h : ∀ result, outcome = some result → result.ofRecord = true) :
    Reconnecting i' (afterRecord i worker n outcome events).worker.pc := by
  cases outcome with
  | none => trivial
  | some result =>
    intro hstopped
    have hrecord := h result rfl
    rw [show result = .stopped from hstopped] at hrecord
    cases hrecord

theorem recordNext_reconnecting [Double D] {p : RecordPc D}
    (hnext : recordNext config w n c worker p = some r)
    (hsourced : Sourced w.impl v (.session (.record p)))
    (hout : ∀ result, p.outcome = some result → result.ofRecord = true) :
    Reconnecting w.impl r.worker.pc := by
  cases p with
  | account record receivedAt rdt ft =>
    obtain ⟨-, _, _, -, hconfiguration⟩ := hsourced
    simp only [recordNext, Impl.account, hconfiguration] at hnext
    split at hnext <;> cases hnext
    · refine afterRecord_reconnecting fun result hresult => ?_
      rcases dispose_finish ‹_› with ⟨-, rfl⟩ | ⟨-, -, rfl⟩
      · exact recordVerdict_ofRecord hresult
      · rw [← Option.some.inj hresult]
        rfl
    · trivial
  | callbackFailed message outcome =>
    cases hnext
    exact afterRecord_reconnecting fun result => callbackFailureOutcome_ofRecord hout
  | notifyLifecycle outcome => cases hnext; exact afterRecord_reconnecting hout
  | _ =>
    simp only [recordNext] at hnext
    (repeat' split at hnext) <;> cases hnext <;> trivial

section
variable [DecidableEq D] [Double D]

theorem sessionNext_reconnecting {p : SessionPc D}
    (hnext : sessionNext config w n c worker p = some r)
    (hok : (RunPc.session p).Unexceptional config w worker.backoff)
    (hsourced : Sourced w.impl v (.session p))
    (hout : ∀ result, (RunPc.session p).recordOutcome = some result → result.ofRecord = true) :
    Reconnecting w.impl r.worker.pc := by
  cases p with
  | record p => exact recordNext_reconnecting hnext hsourced hout
  | firstDeadline | valid =>
    simp only [sessionNext] at hnext
    split at hnext
    · exact absurd ‹_› hok
    · cases hnext; trivial
  | discoverFailed message | socketFailed message =>
    cases hnext
    intro hstopped
    cases hstop : w.impl.stopping with
    | true => rfl
    | false => simp [hstop] at hstopped
  | _ =>
    simp only [sessionNext] at hnext
    (repeat' split at hnext) <;> cases hnext <;>
      first
      | trivial
      | exact fun _ => ‹_›
      | (intro hstopped; cases hstopped)

/-- A worker under `Reconnect`. -/
theorem runNext_reconnecting (hpolicy : config.recoveryPolicy = .reconnect) {p : RunPc D}
    (hnext : runNext config w n c worker p = some r)
    (hok : p.Unexceptional config w worker.backoff) (hsourced : Sourced w.impl v p)
    (hout : ∀ result, p.recordOutcome = some result → result.ofRecord = true)
    (hlatch : w.impl.faultLatch = .none) (h : Reconnecting w.impl p) :
    r.impl.faultLatch = .none ∧ Reconnecting r.impl r.worker.pc := by
  have hunfaulted : w.impl.faulted = false := by simp [Impl.faulted, hlatch]
  have hpublish : ∀ code message, p ≠ .publish code message := fun code message hp => by
    rw [hp] at h
    exact h
  refine ⟨(runNext_kept hnext hpublish).latch.trans hlatch, ?_⟩
  suffices Reconnecting w.impl r.worker.pc from
    this.same fun hstop => (runNext_control hnext).stopping.trans hstop
  cases p with
  | top =>
    simp only [runNext, hunfaulted, Bool.or_false] at hnext
    split at hnext <;> cases hnext
    · assumption
    · trivial
  | session p => exact sessionNext_reconnecting hnext hok hsourced hout
  | close context =>
    simp only [runNext] at hnext
    (repeat' split at hnext) <;> cases hnext <;> cases context <;> exact h
  | closeTransport context => cases hnext; cases context <;> exact h
  | decide outcome =>
    simp only [runNext, hpolicy, reduceCtorEq, and_false, if_false] at hnext
    split at hnext <;> cases hnext
    · rename_i hstop
      exact hstop.elim h id
    · trivial
  | backoffWait =>
    simp only [runNext] at hnext
    split at hnext
    · exact absurd ‹_› hok
    · split at hnext <;> cases hnext <;> trivial
  | finalFaulted =>
    cases hnext
    dsimp only
    split <;> exact h
  | raised | publish | publishNotifyFirst | publishNotifyLifecycle => exact h.elim
  | storeExited | finalState | finalNotifyFirst => cases hnext; exact h
  | _ =>
    simp only [runNext] at hnext
    (repeat' split at hnext) <;> cases hnext <;> trivial

end

/-! ## The stop flag of a run -/

/-- Between clearing the stop flag and creating the worker. -/
def ApiPc.stopCleared : ApiPc D → Bool
  | .start _ (.clearExited _) | .start _ (.create _) => true
  | _ => false

theorem stopCleared_held {p : ApiPc D} (h : p.stopCleared = true) : .lifecycle ∈ p.held := by
  cases p with
  | start callback p => cases p <;> simp_all [ApiPc.stopCleared, ApiPc.held, StartPc.held]
  | _ => cases h

theorem apiNext_stopCleared {p : ApiPc D} {r : ApiNext D} (hnext : apiNext w t c p = some r) :
    (r.impl.stopping = w.impl.stopping ∨ r.impl.stopping = false ∨ p = .stop .lock ∨
      p.role = .cleared) ∧
    (r.pc.stopCleared = true → p.stopCleared = true ∧ r.impl.stopping = w.impl.stopping ∨
      r.impl.stopping = false) ∧
    (r.spawn = true → p.stopCleared = true ∧ r.impl.stopping = w.impl.stopping) := by
  cases apiNext_step hnext with
  | clearStopping => exact ⟨.inr (.inl rfl), fun _ => .inr rfl, fun h => by cases h⟩
  | clearExited => exact ⟨.inl rfl, fun _ => .inl ⟨rfl, rfl⟩, fun h => by cases h⟩
  | created => exact ⟨.inl rfl, (fun h => by cases h), fun _ => ⟨rfl, rfl⟩⟩
  | rollbackStopping =>
    exact ⟨.inr (.inr (.inr rfl)), (fun h => by cases h), fun h => by cases h⟩
  | rollbackPublish =>
    exact ⟨.inl (publish_control ..).stopping, (fun h => by cases h), fun h => by cases h⟩
  | stopFlag => exact ⟨.inr (.inr (.inl rfl)), (fun h => by cases h), fun h => by cases h⟩
  | _ => exact ⟨.inl rfl, (fun h => by cases h), fun h => by cases h⟩

/-- In that section of `start` the flag is not set. -/
def StopCleared (w : World D) : Prop :=
  ∀ t, (w.api t).stopCleared = true → w.impl.stopping = false

section
variable [DecidableEq D] [Double D]

theorem StopCleared.move (h : StopCleared w) (ho : Orderly w) (hm : Moved config w w' l) :
    StopCleared w' := by
  cases hm with
  | tick | spurious => exact h
  | call t call hidle hmay =>
    intro t' ht'
    by_cases ht : t' = t
    · subst ht
      rw [World.enter_api, Function.update_self] at ht'
      cases call <;> cases ht'
    · rw [World.enter_api, Function.update_of_ne ht] at ht'
      exact h t' ht'
  | run n c r hnext htake =>
    intro t' ht'
    rw [World.applyRun_impl, (runNext_control hnext).stopping]
    exact h t' ht'
  | api t c r hnext htake =>
    obtain ⟨hflag, hpc, -⟩ := apiNext_stopCleared hnext
    intro t' ht'
    rw [World.applyApi_impl]
    by_cases ht : t' = t
    · subst ht
      rw [World.applyApi_api, Function.update_self] at ht'
      rcases hpc ht' with ⟨hold, hsame⟩ | hfalse
      · exact hsame.trans (h t' hold)
      · exact hfalse
    · rw [World.applyApi_api, Function.update_of_ne ht] at ht'
      have hcleared := (ho.locked .lifecycle t').mpr (.inl (stopCleared_held ht'))
      -- a thread that sets the flag would hold the lifecycle mutex too
      have hother : .lifecycle ∈ (w.api t).held ∨ .lifecycle ∈ (w.api t).needs → False :=
        fun hm => ht (ho.locked.owner_api htake hm hcleared)
      rcases hflag with hsame | hfalse | hlock | hrole
      · exact hsame.trans (h t' ht')
      · exact hfalse
      · exact (hother (.inr (by simp [hlock, ApiPc.needs, StopPc.needs]))).elim
      · exact (hother (.inl (held_of_exclusive _ (by simp [hrole, Role.exclusive])))).elim

theorem Reachable.stopCleared (h : Reachable config w l) : StopCleared w :=
  h.induction (I := fun v _ => StopCleared v) (fun _ _ h => by cases h)
    fun hv hi hm => hi.move hv.orderly hm

/-- A `stop` has set the flag while the worker was executing. -/
def Requested (config : Config D) (w : World D) (l : List (Event D)) (n : Nat) : Prop :=
  ∃ w₁ l₁ t c w₂ l₂ l₃, Reachable config w₁ l₁ ∧ w₁.executing n ∧ w₁.api t = .stop .lock ∧
    step config w₁ (.api t c) = some (w₂, l₂) ∧ (machine config).Run w₂ l₃ w ∧ l = l₁ ++ l₂ ++ l₃

theorem Requested.step {a : Action D} (h : Requested config w l n)
    (hstep : Client.step config w a = some (w', l')) : Requested config w' (l ++ l') n := by
  obtain ⟨w₁, l₁, t, c, w₂, l₂, l₃, hreach, hn, hat, hset, hrun, rfl⟩ := h
  exact ⟨w₁, l₁, t, c, w₂, l₂, l₃ ++ l', hreach, hn, hat, hset, hrun.tail hstep, by simp⟩

/-- The flag is set beside a worker only by a `stop`. -/
theorem requested_step {a : Action D} (hv : Reachable config w l)
    (h : w.executing n → w.impl.stopping = true → Requested config w l n)
    (hstep : Client.step config w a = some (w', l')) (hn : w'.executing n)
    (hstop : w'.impl.stopping = true) : Requested config w' (l ++ l') n := by
  cases a with
  | tick | spurious => exact (h (by cases hstep; exact hn) (by cases hstep; exact hstop)).step hstep
  | call t call =>
    refine (h ?_ ?_).step hstep <;> simp only [Client.step] at hstep <;>
      (repeat' split at hstep) <;> cases hstep
    · exact hn
    · exact hstop
  | run k c =>
    obtain ⟨r, hnext, -, rfl, rfl⟩ := step_run hstep
    refine (h ?_ ?_).step hstep
    · by_cases hkn : n = k
      · rw [hkn]; exact executing_of_next hnext
      · rwa [World.executing, World.applyRun_workers, Function.update_of_ne hkn] at hn
    · rwa [World.applyRun_impl, (runNext_control hnext).stopping] at hstop
  | api t c =>
    obtain ⟨r, hnext, htake, rfl, rfl⟩ := step_api hstep
    rw [World.applyApi_impl] at hstop
    obtain ⟨hflag, -, hspawn⟩ := apiNext_stopCleared hnext
    rcases executing_of_applyApi hn with hold | ⟨hnew, -⟩
    · rcases hflag with hsame | hfalse | hlock | hrole
      · exact (h hold (hsame.symm.trans hstop)).step hstep
      · rw [hfalse] at hstop
        cases hstop
      · exact ⟨w, l, t, c, _, _, [], hv, hold, hlock, hstep, .refl, by simp⟩
      · exact absurd hold (hv.orderly.none_executing (.inr hrole) n)
    · obtain ⟨hcleared, hsame⟩ := hspawn hnew
      rw [hsame, hv.stopCleared t hcleared] at hstop
      cases hstop

end

/-! ## Whole runs -/

theorem reconnecting_of_not_executing (h : ¬ w.executing n) (i : Impl D) :
    Reconnecting i (w.workers n).pc := by
  rw [World.executing, running_iff] at h
  cases hp : (w.workers n).pc with
  | unborn | exited => trivial
  | _ => simp [hp, RunPc.phase] at h

section
variable [DecidableEq D] [Double D]

/-- What holds in every state of a run under `Reconnect`. -/
structure Recovering (config : Config D) (w : World D) (l : List (Event D)) : Prop where
  unfaulted : Unfaulted w
  workers : ∀ n, Reconnecting w.impl (w.workers n).pc
  requested : ∀ n, w.executing n → w.impl.stopping = true → Requested config w l n
  ended : ∀ n, (w.workers n).pc = .exited → Requested config w l n

theorem recovering_initial (clock : TimePoint) : Recovering config (World.initial clock) [] where
  unfaulted := ⟨rfl, fun _ _ h => by cases h⟩
  workers _ := trivial
  requested _ h := by cases h
  ended _ h := by cases h

theorem Recovering.run (hpolicy : config.recoveryPolicy = .reconnect) (h : Recovering config w l)
    (hv : Reachable config w l)
    (hok : (w.workers n).pc.Unexceptional config w (w.workers n).backoff)
    (hstep : step config w (.run n c) = some (w', l')) : Recovering config w' (l ++ l') := by
  have hrequested := fun k => requested_step hv (h.requested k) hstep
  obtain ⟨r, hnext, -, rfl, rfl⟩ := step_run hstep
  have hrun := executing_of_next hnext
  obtain ⟨hlatch, hworker⟩ := runNext_reconnecting hpolicy hnext hok (hv.provenanced.sourced n)
    (hv.recordOutcomes n) h.unfaulted.1 (h.workers n)
  refine ⟨⟨hlatch, h.unfaulted.2⟩, fun k => ?_, hrequested, fun k hk => ?_⟩
  · rw [World.applyRun_workers]
    by_cases hkn : k = n
    · rw [hkn, Function.update_self]; exact hworker
    · rw [Function.update_of_ne hkn]
      exact (h.workers k).same fun hstop => (runNext_control hnext).stopping.trans hstop
  · rw [World.applyRun_workers] at hk
    by_cases hkn : k = n
    · rw [hkn, Function.update_self] at hk
      have hstored : (w.workers n).pc.phase = .stored := by
        have hexit := (running_iff _).mp hrun
        rcases runNext_phase hnext with ⟨hsame, -⟩ | ⟨-, hstored, -⟩ | ⟨hstored, -⟩
        · rw [hk] at hsame; exact absurd hsame.symm hexit.2
        · rw [hk] at hstored; cases hstored
        · exact hstored
      -- a worker that has stored the exit flag has left its loop
      have hstop : w.impl.stopping = true := by
        have hn := h.workers n
        cases hp : (w.workers n).pc with
        | finalFaulted | finalState | finalNotifyFirst | finalNotifyLifecycle =>
          rw [hp] at hn
          exact hn
        | _ => rw [hp] at hstored; cases hstored
      rw [hkn]
      exact (h.requested n hrun hstop).step hstep
    · rw [Function.update_of_ne hkn] at hk
      exact (h.ended k hk).step hstep

theorem Recovering.api (h : Recovering config w l) (hv : Reachable config w l)
    (hstep : step config w (.api t c) = some (w', l')) : Recovering config w' (l ++ l') := by
  have hrequested := fun k => requested_step hv (h.requested k) hstep
  obtain ⟨r, hnext, -, rfl, rfl⟩ := step_api hstep
  obtain ⟨hlatch, hsaved⟩ := apiNext_unfaulted hnext h.unfaulted.1 (h.unfaulted.2 t)
  refine ⟨⟨hlatch, fun t' p hp => ?_⟩, fun k => ?_, hrequested, fun k hk => ?_⟩
  · rw [World.applyApi_api] at hp
    by_cases ht : t' = t
    · rw [ht, Function.update_self] at hp; exact hsaved p hp
    · rw [Function.update_of_ne ht] at hp; exact h.unfaulted.2 t' p hp
  · rcases hv.orderly.applyApi_worker config t r k with hsame | ⟨-, htop⟩
    · rw [hsame]
      by_cases hk : w.executing k
      · exact (h.workers k).same (hv.orderly.apiNext_keeps_stopping hnext hk)
      · exact reconnecting_of_not_executing hk _
    · rw [htop]; trivial
  · rcases hv.orderly.applyApi_worker config t r k with hsame | ⟨-, htop⟩
    · rw [hsame] at hk; exact (h.ended k hk).step hstep
    · rw [htop] at hk; cases hk

theorem Recovering.step (hpolicy : config.recoveryPolicy = .reconnect) {a : Action D}
    (h : Recovering config w l) (hv : Reachable config w l) (hok : Unexceptional config w a)
    (hstep : Client.step config w a = some (w', l')) : Recovering config w' (l ++ l') := by
  cases a with
  | run n c => exact h.run hpolicy hv hok hstep
  | api t c => exact h.api hv hstep
  | tick | spurious =>
    have hrequested := fun k => requested_step hv (h.requested k) hstep
    have hended := fun k hk => (h.ended k hk).step hstep
    cases hstep
    exact ⟨h.unfaulted, fun k => (h.workers k).same id, hrequested, hended⟩
  | call t call =>
    have hrequested := fun k => requested_step hv (h.requested k) hstep
    have hended := fun k hk => (h.ended k hk).step hstep
    simp only [Client.step] at hstep
    (repeat' split at hstep) <;> cases hstep
    refine ⟨⟨h.unfaulted.1, fun t' p hp => ?_⟩, h.workers, hrequested, hended⟩
    rw [World.enter_api] at hp
    by_cases ht : t' = t
    · rw [ht, Function.update_self] at hp
      cases call <;> cases hp
    · rw [Function.update_of_ne ht] at hp; exact h.unfaulted.2 t' p hp

end

/-- The log of a run that executes at most one session and publishes nothing but its fault. -/
structure RunLog.Single (g : RunLog D) : Prop where
  began : g.began ≤ 1
  outcomes : ∀ outcome ∈ g.outcomes,
    g.outcomes = [outcome] ∧ g.selected = outcome.result.complaint
  published : ∀ code ∈ g.published, ∃ outcome, g.outcomes = [outcome] ∧
    outcome.result ≠ .stopped ∧ code = faultFor outcome.result ∧ g.published = [code]

theorem RunLog.Opened.single {g : RunLog D} {selected : Option SessionResult}
    (h : g.Opened selected) : g.Single :=
  ⟨Nat.le_of_eq h.began, by simp [h.outcomes], by simp [h.published]⟩

theorem RunLog.Ended.single {g : RunLog D} {outcome : SessionOutcome} (h : g.Ended outcome)
    (hpublished : g.published = [] ∨ g.published = faultOf outcome) : g.Single := by
  refine ⟨Nat.le_of_eq h.began, by simp [h.outcomes, h.selected], fun code hcode => ?_⟩
  rcases hpublished with hnone | hfault
  · simp [hnone] at hcode
  · have hstopped : outcome.result ≠ .stopped := fun hstopped => by
      simp [hfault, faultOf, hstopped] at hcode
    rw [faultOf, if_neg hstopped] at hfault
    obtain rfl : code = faultFor outcome.result := by simpa [hfault] using hcode
    exact ⟨outcome, h.outcomes, hstopped, rfl, hfault⟩

theorem RunLog.Settled.single {g : RunLog D} (h : g.Settled) : g.Single := by
  rcases h with rfl | ⟨outcome, hended, hpublished⟩
  · exact ⟨Nat.zero_le 1, (fun _ h => by cases h), fun _ h => by cases h⟩
  · exact hended.single (.inr hpublished)

theorem OneSession.single {g : RunLog D} {p : RunPc D} (h : OneSession g p) : g.Single := by
  cases p with
  | unborn | top =>
    obtain rfl : g = {} := h
    exact RunLog.Settled.single (.inl rfl)
  | session p =>
    cases p with
    | record p => exact h.1.single
    | _ => exact RunLog.Opened.single h
  | close context | closeTransport context =>
    cases context with
    | session outcome => exact h.1.single (.inl h.2)
    | finish => exact RunLog.Settled.single h
  | decide outcome => exact h.1.single (.inl h.2)
  | publish code message =>
    obtain ⟨outcome, hended, hpublished, -⟩ := h
    exact hended.single (.inl hpublished)
  | raised | enterBackoff | backoffWait | backoffBlock | backoffAsleep => exact h.elim
  | _ => exact RunLog.Settled.single h

section
variable [DecidableEq D] [Double D]

/-- A snapshot of a run under `FailStop` knows no reconnect and no backoff. -/
def Unreconnected (s : HealthSnapshot D) : Prop := s.reconnectCount = 0 ∧ s.state ≠ .backoff

theorem SingleSession.reads {a : Action D} (h : SingleSession w l)
    (hstep : Client.step config w a = some (w', l')) {s : HealthSnapshot D}
    (he : .healthRead t s ∈ l') : Unreconnected s := by
  obtain ⟨t', c, q, -, -, hmem⟩ := step_reads hstep he rfl
  cases q <;> simp [queryNext] at hmem
  obtain ⟨-, rfl⟩ := hmem
  refine ⟨h.reconnects, ?_⟩
  simp only [Impl.takeHealth]
  split
  · simp
  · exact h.state.1

/-- The recovery policy is respected on every run in which the deadlines are representable and the
samples are finite. Under `Reconnect` no fault is latched, no exception reaches `run`, and a worker
exits only after a `stop` beside it; under `FailStop` a worker executes one session at most, and
latches the fault of its outcome unless it was stopped. -/
theorem recovery_policy_respected {clock : TimePoint}
    (h : (machine config).RunIf (Unexceptional config) (World.initial clock) l w) :
    (config.recoveryPolicy = .reconnect →
      w.impl.faultLatch = .none ∧
      (∀ n message, (w.workers n).pc ≠ .raised message) ∧
      (∀ n record receivedAt rdt ft,
        (w.workers n).pc = .session (.record (.account record receivedAt rdt ft)) →
          w.impl.account config record receivedAt rdt ft ≠ none) ∧
      ∀ n, (w.workers n).pc = .exited → Requested config w l n) ∧
    (config.recoveryPolicy = .failStop →
      Unreconnected w.impl.health ∧
      (∀ t snapshot, .healthRead t snapshot ∈ l → Unreconnected snapshot) ∧
      ∀ n, (runLog n l).Single ∧
        (w.executing n → w.impl.faultLatch = (runLog n l).published.headD .none) ∧
        ((w.workers n).pc = .exited →
          ∀ outcome ∈ (runLog n l).outcomes, (runLog n l).published = faultOf outcome)) := by
  have hv : Reachable config w l := ⟨clock, h.run⟩
  refine ⟨fun hpolicy => ?_, fun hpolicy => ?_⟩
  · have hi : Recovering config w l := h.invariant (recovering_initial clock)
      fun hrun hi hok hstep => hi.step hpolicy ⟨clock, hrun⟩ hok hstep
    refine ⟨hi.unfaulted.1, fun n message hp => ?_, fun n record receivedAt rdt ft hp => ?_,
      hi.ended⟩
    · have hn := hi.workers n
      rw [hp] at hn
      exact hn
    · have hsourced := hv.provenanced.sourced n
      rw [hp] at hsourced
      obtain ⟨-, _, _, -, hconfiguration⟩ := hsourced
      simp [Impl.account, hconfiguration]
  · obtain ⟨hi, hreads⟩ : SingleSession w l ∧
        ∀ t snapshot, .healthRead t snapshot ∈ l → Unreconnected snapshot :=
      h.invariant (I := fun w l => SingleSession w l ∧
          ∀ t snapshot, .healthRead t snapshot ∈ l → Unreconnected snapshot)
        ⟨singleSession_initial clock, fun _ _ h => by cases h⟩
        fun hrun hi hok hstep => ⟨hi.1.step hpolicy ⟨clock, hrun⟩ hok hstep, fun t s he => by
          rcases List.mem_append.mp he with he | he
          · exact hi.2 t s he
          · exact hi.1.reads hstep he⟩
    refine ⟨⟨hi.reconnects, hi.state.1⟩, hreads, fun n => ⟨(hi.log n).single, hi.latch n,
      fun hp outcome houtcome => ?_⟩⟩
    have hlog := hi.log n
    rw [hp] at hlog
    rcases hlog with hempty | ⟨outcome', hended, hpublished⟩
    · rw [hempty] at houtcome
      cases houtcome
    · rw [hended.outcomes] at houtcome
      rw [List.mem_singleton.mp houtcome]
      exact hpublished

end

/-! ## A client that faults and a client that recovers -/

/-- The assumptions, tested. -/
def RunPc.unexceptional [Double D] (config : Config D) (w : World D) (backoff : Rat) :
    RunPc D → Bool
  | .session .firstDeadline => (checkedDeadline w.clock config.receiveTimeout).isSome
  | .session (.valid _ receivedAt) => (checkedDeadline receivedAt config.receiveTimeout).isSome
  | .session (.record (.account record receivedAt ..)) =>
    w.impl.health.sensorConfiguration.all fun configuration =>
      finiteAxes (makeSample configuration record receivedAt)
  | .backoffWait => (checkedDeadline w.clock backoff).isSome
  | _ => true

theorem phase_exited {p : RunPc D} (h : p.phase = .exited) : p = .exited := by
  cases p <;> first | rfl | cases h

theorem RunPc.Unexceptional.of_test [Double D] {p : RunPc D} {backoff : Rat}
    (h : p.unexceptional config w backoff = true) : p.Unexceptional config w backoff := by
  cases p with
  | session p =>
    cases p with
    | firstDeadline | valid => exact Option.isSome_iff_ne_none.mp h
    | record p =>
      cases p with
      | account record receivedAt rdt ft =>
        intro configuration hconfiguration
        simpa [unexceptional, hconfiguration] using h
      | _ => trivial
    | _ => trivial
  | backoffWait => exact Option.isSome_iff_ne_none.mp h
  | _ => trivial

def World.unexceptional [Double D] (config : Config D) (w : World D) : Action D → Bool
  | .run n _ => (w.workers n).pc.unexceptional config w (w.workers n).backoff
  | _ => true

theorem runIf_unexceptional [DecidableEq D] [Double D] (config : Config D) (w : World D)
    (as : List (Action D))
    (h : (machine config).allowed (World.unexceptional config) w as = true) :
    (machine config).RunIf (Unexceptional config) w ((machine config).perform w as).2
      ((machine config).perform w as).1 :=
  Machine.runIf_perform _ h fun w a ha => by
    cases a with
    | run n c => exact RunPc.Unexceptional.of_test ha
    | _ => trivial

/-- A run under `FailStop` whose first record has a serious status. -/
def seriousActions : List (Action Rat) :=
  startActions (.client 0) ++ openActions 0 ++ List.replicate 3 (.run 0 .go) ++
    [.run 0 .succeeds, .run 0 .go,
      .run 0 (.datagram (List.replicate 8 0 ++ [128, 0, 0, 1] ++ List.replicate 24 0))] ++
    List.replicate 5 (.run 0 .go) ++ .run 0 .succeeds :: List.replicate 11 (.run 0 .go)

/-- A run under `Reconnect` that loses its socket, and is stopped in the backoff. -/
def stopInBackoffActions : List (Action Rat) :=
  startActions (.client 0) ++ openActions 0 ++ List.replicate 3 (.run 0 .go) ++
    [.run 0 (.fails "poll"), .run 0 .go, .run 0 .succeeds] ++ List.replicate 5 (.run 0 .go) ++
    [.call (.client 1) .stop, .api (.client 1) .go, .api (.client 1) .go] ++
    List.replicate 9 (.run 0 .go)

theorem recovery_policy_respected_seriousActions :
    let s := (machine (demoConfig .failStop)).perform (World.initial 1) seriousActions
    let r := (machine (demoConfig .reconnect)).perform (World.initial 1) stopInBackoffActions
    (runLog 0 s.2).published = [.seriousStatus] ∧ (runLog 0 s.2).Single ∧
      r.1.impl.health.reconnectCount = 1 ∧ r.1.impl.faultLatch = .none ∧
      Requested (demoConfig .reconnect) r.1 r.2 0 := by
  have hs := recovery_policy_respected
    (runIf_unexceptional (demoConfig .failStop) (World.initial 1) seriousActions
      (by decide +kernel))
  have hr := recovery_policy_respected
    (runIf_unexceptional (demoConfig .reconnect) (World.initial 1) stopInBackoffActions
      (by decide +kernel))
  have hexit : (((machine (demoConfig .reconnect)).perform (World.initial 1)
      stopInBackoffActions).1.workers 0).pc = .exited := phase_exited (by decide +kernel)
  exact ⟨by decide +kernel, ((hs.2 rfl).2.2 0).1, by decide +kernel, (hr.1 rfl).1,
    (hr.1 rfl).2.2.2 0 hexit⟩

end NetFT.Client
