import NetFT.Client.Commands

/-! Two waits whose notification can be missed. `wait` evaluates its predicate while it holds a
mutex, and only in a later step releases the mutex and enqueues the thread.

`start` waits for a faulted worker to exit with the lifecycle mutex. The worker changes the
predicate and notifies without that mutex, so its last notification can fall in between, and the
thread then sleeps through the exit (`sleepsThroughExit_reachable`). That is the only way for it
to happen (`wakes_for_exit`).

The worker waits for its reconnect delay with the data mutex. `stop` sets the flag and notifies
without that mutex, so the worker can sleep through a `stop` (`sleepsThroughStop_reachable`), and
again only in this way (`wakes_for_stop`). -/

namespace NetFT.Client
open Detail Library

variable {D : Type}

/-- `start` has evaluated `worker_exited_ || !faulted()` to false and is not enqueued yet. -/
def ApiPc.checksExit : ApiPc D → Bool
  | .start _ .exitBlock => true
  | _ => false

/-- `start` is at the wait for it, enqueued or woken. -/
def ApiPc.awaitsExit : ApiPc D → Bool
  | .start _ .exitAsleep => true
  | _ => false

/-- A `start` is enqueued at its wait for the exit of the worker although the exit flag is set
and no worker has a notification left. -/
def World.sleepsThroughExit (w : World D) : Prop :=
  (∃ t, (w.api t).awaitsExit = true ∧ t ∈ w.impl.lifecycleCv) ∧ w.impl.workerExited = true ∧
    ∀ n, ¬ w.executing n

/-- The last notification of a worker is not made while a `start` stands between the evaluation
of its predicate and the wait. -/
def NotifiesWaiters (w : World D) : Action D → Prop
  | .run n _ => (w.workers n).pc = .finalNotifyLifecycle → ∀ t, (w.api t).checksExit = false
  | _ => True

/-- Whoever will wait for an exit, or waits for it unnotified, has a worker to notify it. -/
structure Awake (w : World D) : Prop where
  checking : ∀ t, (w.api t).checksExit = true → ∃ n, w.executing n
  waiting : ∀ t, (w.api t).awaitsExit = true → t ∈ w.impl.lifecycleCv → ∃ n, w.executing n

variable {config : Config D} {w w' : World D} {t : Tid} {n : Nat} {c : Choice D}

/-! ## The condition variable -/

/-- An entry point enqueues nobody but the thread that executes it. -/
theorem apiNext_lifecycleCv {p : ApiPc D} {r : ApiNext D} (hnext : apiNext w t c p = some r)
    {t' : Tid} (hne : t' ≠ t) (hmem : t' ∈ r.impl.lifecycleCv) : t' ∈ w.impl.lifecycleCv := by
  cases apiNext_step hnext with
  | startJoiningBlock | exitBlock | stopJoiningBlock => exact (List.mem_cons.mp hmem).resolve_left hne
  | reapedNotify | started | rolledBack | stopNotifyLifecycle | stopFinalNotifyLifecycle => cases hmem
  | rollbackPublish =>
    simp only [Impl.publish] at hmem
    split at hmem <;> exact hmem
  | _ => exact hmem

/-- A `start` comes to its wait only through a false predicate, and there only by enqueueing. -/
theorem apiNext_exitWait {p : ApiPc D} {r : ApiNext D} (hnext : apiNext w t c p = some r) :
    (r.pc.checksExit = true → w.impl.workerExited = false ∧ p.role = .past ∧
      (.lifecycle ∈ p.held ∨ .lifecycle ∈ p.needs)) ∧
    (r.pc.awaitsExit = true → p.checksExit = true) := by
  cases apiNext_step hnext with
  | exitUnseen hunseen =>
    exact ⟨fun _ => ⟨by simp_all, rfl, .inl (by simp [ApiPc.held, StartPc.held])⟩,
      fun h => by cases h⟩
  | exitAgain _ hunseen =>
    exact ⟨fun _ => ⟨by simp_all, rfl, .inr (by simp [ApiPc.needs, StartPc.needs])⟩,
      fun h => by cases h⟩
  | exitBlock => exact ⟨(fun h => by cases h), fun _ => rfl⟩
  | _ => exact ⟨(fun h => by cases h), fun h => by cases h⟩

theorem checksExit_iff {p : ApiPc D} :
    p.checksExit = true ↔ ∃ callback, p = .start callback .exitBlock := by
  cases p with
  | start callback q => cases q <;> simp [ApiPc.checksExit]
  | _ => simp [ApiPc.checksExit]

/-- An entry point ends no worker. -/
theorem executing_applyApi (hn : Nested w) {r : ApiNext D} (h : w.executing n) :
    (w.applyApi config t r).executing n := by
  have hc : n ≠ w.created := by
    rintro rfl
    simp [World.executing, hn.unborn _ (Nat.le_refl _), RunPc.running] at h
  unfold World.executing
  rw [applyApi_workers_ne hc]
  exact h

/-- Whoever sees the exit flag unset under the lifecycle mutex sees it for a worker. -/
theorem Orderly.executing_of_flag (ho : Orderly w) (halone : w.life.Alone t)
    (hcleared : w.life.role t ≠ .cleared) (hflag : w.impl.workerExited = false) :
    ∃ n, w.executing n := by
  by_contra hnone
  have hlive : ∀ n, w.life.phase n ≠ .live := fun n hn =>
    hnone ⟨n, (running_iff _).mpr (by simp_all [World.life])⟩
  have hdone := ho.life.doneFlag hlive fun t' ht' => by
    by_cases hne : t' = t
    · exact hcleared (hne ▸ ht')
    · exact (halone.of_ne hne).2.2.1 ht'
  simp only [World.life] at hdone
  simp [hflag] at hdone

theorem recordNext_lifecycleCv [Double D] {worker : Worker D} {r : RunNext D} {p : RecordPc D}
    (hnext : recordNext config w n c worker p = some r) :
    r.impl.lifecycleCv = w.impl.lifecycleCv ∨ r.impl.lifecycleCv = [] := by
  cases p with
  | account record receivedAt rdt ft =>
    simp only [recordNext] at hnext
    split at hnext
    · cases hnext; exact .inl rfl
    · rename_i haccount
      obtain ⟨-, rfl, -⟩ := account_some haccount
      split at hnext <;> cases hnext <;> simp only [afterRecord_impl] <;> exact .inl rfl
  | notifyLifecycle => cases hnext; simp only [afterRecord_impl]; exact .inr rfl
  | callbackFailed => cases hnext; simp only [afterRecord_impl]; exact .inl rfl
  | _ =>
    simp only [recordNext] at hnext
    (repeat' split at hnext) <;> cases hnext <;> exact .inl rfl

section
variable [DecidableEq D] [Double D] {worker : Worker D} {r : RunNext D}

theorem sessionNext_lifecycleCv {p : SessionPc D}
    (hnext : sessionNext config w n c worker p = some r) :
    r.impl.lifecycleCv = w.impl.lifecycleCv ∨ r.impl.lifecycleCv = [] := by
  cases p with
  | record p => exact recordNext_lifecycleCv hnext
  | apply configuration =>
    cases hnext
    simp only [Impl.applyConfiguration]
    split
    · split <;> exact .inl rfl
    · exact .inl rfl
  | _ =>
    simp only [sessionNext] at hnext
    (repeat' split at hnext) <;> cases hnext <;> exact .inl rfl

/-- A worker enqueues nobody on the lifecycle variable. -/
theorem runNext_lifecycleCv {p : RunPc D} (hnext : runNext config w n c worker p = some r) :
    r.impl.lifecycleCv = w.impl.lifecycleCv ∨ r.impl.lifecycleCv = [] := by
  cases p with
  | session p => exact sessionNext_lifecycleCv hnext
  | publish code message =>
    cases hnext
    simp only [Impl.publish]
    split <;> exact .inl rfl
  | publishNotifyLifecycle | finalNotifyLifecycle => cases hnext; exact .inr rfl
  | _ =>
    simp only [runNext] at hnext
    (repeat' split at hnext) <;> cases hnext <;> exact .inl rfl

/-- A worker ends with its last notification. -/
theorem runNext_ends {p : RunPc D} (hnext : runNext config w n c worker p = some r)
    (hend : r.worker.pc.running = false) :
    p = .finalNotifyLifecycle ∧ r.impl.lifecycleCv = [] := by
  cases p with
  | finalNotifyLifecycle => cases hnext; exact ⟨rfl, rfl⟩
  | unborn | exited => cases hnext
  | session p =>
    have hlive := (sessionNext_phase hnext).1
    have hrun := (running_iff r.worker.pc).mpr (by simp [hlive])
    simp [hrun] at hend
  | closeTransport context => cases hnext; cases context <;> cases hend
  | raised | finalFaulted =>
    cases hnext
    dsimp only at hend
    split at hend <;> cases hend
  | _ =>
    simp only [runNext] at hnext
    (repeat' split at hnext) <;> cases hnext <;> cases hend

/-! ## The wait of `start` -/

theorem Awake.move {a : Action D} (h : Awake w) (ho : Orderly w) (hok : NotifiesWaiters w a)
    (hstep : step config w a = some (w', l)) : Awake w' := by
  cases a with
  | tick ticks => cases hstep; exact ⟨h.checking, h.waiting⟩
  | spurious t =>
    cases hstep
    exact ⟨h.checking, fun t' ht' hmem => h.waiting t' ht' (List.mem_filter.mp hmem).1⟩
  | call t call =>
    simp only [step] at hstep
    (repeat' split at hstep) <;> cases hstep
    constructor <;> intro t' ht' <;> by_cases ht : t' = t
    · subst ht
      rw [World.enter_api, Function.update_self] at ht'
      cases call <;> cases ht'
    · rw [World.enter_api, Function.update_of_ne ht] at ht'
      exact h.checking t' ht'
    · subst ht
      rw [World.enter_api, Function.update_self] at ht'
      cases call <;> cases ht'
    · rw [World.enter_api, Function.update_of_ne ht] at ht'
      exact h.waiting t' ht'
  | api t c =>
    obtain ⟨r, hnext, htake, rfl, -⟩ := step_api hstep
    obtain ⟨hchecks, hawaits⟩ := apiNext_exitWait hnext
    have hkeep : (∃ n, w.executing n) → ∃ n, (w.applyApi config t r).executing n :=
      fun hex => hex.imp fun n hn => executing_applyApi ho.nested hn
    constructor <;> intro t' ht' <;> by_cases ht : t' = t
    · subst ht
      rw [World.applyApi_api, Function.update_self] at ht'
      obtain ⟨hflag, hrole, hlock⟩ := hchecks ht'
      exact hkeep (ho.executing_of_flag (ho.locked.alone htake hlock)
        (by simp [World.life, hrole]) hflag)
    · rw [World.applyApi_api, Function.update_of_ne ht] at ht'
      exact hkeep (h.checking t' ht')
    · subst ht
      rw [World.applyApi_api, Function.update_self] at ht'
      exact fun _ => hkeep (h.checking t' (hawaits ht'))
    · rw [World.applyApi_api, Function.update_of_ne ht] at ht'
      exact fun hmem => hkeep (h.waiting t' ht' (apiNext_lifecycleCv hnext ht hmem))
  | run n c =>
    obtain ⟨r, hnext, htake, rfl, -⟩ := step_run hstep
    have hrun := executing_of_next hnext
    cases hend : r.worker.pc.running with
    | true =>
      have hstill : (w.applyRun n r).executing n := by simp [World.executing, hend]
      exact ⟨fun _ _ => ⟨n, hstill⟩, fun _ _ _ => ⟨n, hstill⟩⟩
    | false =>
      obtain ⟨hpc, hcv⟩ := runNext_ends hnext hend
      refine ⟨fun t' ht' => ?_, fun t' ht' hmem => ?_⟩
      · simp [hok hpc t'] at ht'
      · rw [World.applyRun_impl, hcv] at hmem
        cases hmem

/-- After a last notification that a `start` was not ready for, it falls asleep. -/
theorem sleeps_of_missed (ho : Orderly w) (hstep : step config w (.run n c) = some (w', l))
    (hpc : (w.workers n).pc = .finalNotifyLifecycle) (ht : (w.api t).checksExit = true) :
    ∃ w'', step config w' (.api t .go) = some (w'', []) ∧ w''.sleepsThroughExit := by
  obtain ⟨callback, hapi⟩ := checksExit_iff.mp ht
  obtain ⟨r, hnext, -, rfl, -⟩ := step_run hstep
  rw [hpc] at hnext
  cases hnext
  have hlast := ho.life.last_of_executing (n := n) (by simp [World.executing, hpc, RunPc.running])
  have hlive : ∀ k, w.life.phase k ≠ .live := fun k hk => by
    obtain rfl : k = n := by
      have := ho.life.last_of_live hk
      simp only [World.life] at this
      omega
    simp [World.life, hpc, RunPc.phase] at hk
  have hflag : w.impl.workerExited = true := ho.life.doneFlag hlive fun t' hrole => by
    have hheld := held_of_exclusive (w.api t') (by
      have : (w.api t').role = .cleared := hrole
      simp [this, Role.exclusive])
    have hheld' : .lifecycle ∈ (w.api t).held := by simp [hapi, ApiPc.held, StartPc.held]
    obtain rfl := ho.locked.exclusive hheld hheld'
    simp [World.life, hapi, ApiPc.role, StartPc.role] at hrole
  have hblock : ∀ v : World D, v.api t = .start callback .exitBlock →
      apiNext v t .go (v.api t) = some
        { impl := { v.impl with lifecycleCv := t :: v.impl.lifecycleCv }
          pc := .start callback .exitAsleep } := by
    intro v hv
    rw [hv]
    rfl
  refine ⟨_, step_of_apiNext (hblock (w.applyRun n _) hapi)
    (by simp [hapi, canTake, ApiPc.needs, StartPc.needs, ApiPc.held, StartPc.held]),
    ⟨t, ?_, List.mem_cons_self⟩, hflag, fun k hk => ?_⟩
  · rw [World.applyApi_api, Function.update_self]
    rfl
  simp only [World.executing, World.applyApi, Bool.false_eq_true, if_false,
    World.applyRun_workers] at hk
  by_cases hkn : k = n
  · subst hkn; simp [RunPc.running] at hk
  · rw [Function.update_of_ne hkn] at hk
    have := ho.life.last_of_executing (n := k) hk
    omega

/-- A `start` sleeps through the exit of the worker exactly when the worker's last notification
falls between the evaluation of the predicate and the wait: in a run without such a step it never
does, and after such a step it does. -/
theorem wakes_for_exit :
    (∀ clock l w, (machine config).RunIf NotifiesWaiters (World.initial clock) l w →
      ¬ w.sleepsThroughExit) ∧
    ∀ w l n c w' l', Reachable config w l → step config w (.run n c) = some (w', l') →
      ¬ NotifiesWaiters w (.run n c) →
      ∃ t w'', step config w' (.api t .go) = some (w'', []) ∧ w''.sleepsThroughExit := by
  refine ⟨fun clock l w hrun => ?_, fun w l n c w' l' h hstep hok => ?_⟩
  · have hawake : Awake w := hrun.invariant (I := fun v _ => Awake v)
      ⟨(fun _ h => by cases h), fun _ h => by cases h⟩
      fun hv hi hok hstep => hi.move (Reachable.orderly ⟨clock, hv⟩) hok hstep
    rintro ⟨⟨t, ht, hmem⟩, -, hnone⟩
    obtain ⟨n, hn⟩ := hawake.waiting t ht hmem
    exact hnone n hn
  · simp only [NotifiesWaiters, not_forall, Bool.not_eq_false] at hok
    obtain ⟨hpc, t, ht⟩ := hok
    obtain ⟨w'', hstep', hsleeps⟩ := sleeps_of_missed h.orderly hstep hpc ht
    exact ⟨t, w'', hstep', hsleeps⟩

end

/-- Worker `n` from its creation to a failed connection, and through the fault to the end of its
last session. -/
def faultActions (n : Nat) : List (Action Rat) :=
  List.replicate 6 (.run n .go) ++ .run n (.fails "no route") :: List.replicate 9 (.run n .go)

/-- `start` on thread `t`, up to its wait for a faulted worker. -/
def awaitExitActions (t : Tid) : List (Action Rat) :=
  .call t (.start none) :: List.replicate 4 (.api t .go)

/-- A `start` on a faulted client that falls asleep after the worker is gone. -/
def sleepingClient : World Rat × List (Event Rat) :=
  (machine (demoConfig .failStop)).perform (World.initial 1)
    (startActions (.client 0) ++ faultActions 0 ++ awaitExitActions (.client 1) ++
      List.replicate 4 (.run 0 .go) ++ [.api (.client 1) .go])

theorem sleepsThroughExit_reachable :
    ∃ l, Reachable (demoConfig .failStop) sleepingClient.1 l ∧
      sleepingClient.1.sleepsThroughExit := by
  have h : Reachable (demoConfig .failStop) sleepingClient.1 sleepingClient.2 :=
    ⟨1, Machine.run_perform (by decide +kernel)⟩
  refine ⟨_, h, ⟨.client 1, by decide +kernel, by decide +kernel⟩, by decide +kernel, fun n hn => ?_⟩
  have hlast := h.orderly.life.last_of_executing hn
  obtain rfl : n = 0 := by
    have hcreated : sleepingClient.1.created = 1 := by decide +kernel
    omega
  have hexit : (sleepingClient.1.workers 0).pc.running = false := by decide +kernel
  simp [World.executing, hexit] at hn

/-- A `start` that is enqueued before the worker's last notification. -/
def waitingClient : World Rat × List (Event Rat) :=
  (machine (demoConfig .failStop)).perform (World.initial 1)
    (startActions (.client 0) ++ faultActions 0 ++ awaitExitActions (.client 1) ++
      [.api (.client 1) .go])

/-- `waitingClient` after the last notification of the worker. -/
def wokenClient : World Rat × List (Event Rat) :=
  (machine (demoConfig .failStop)).perform (World.initial 1)
    (startActions (.client 0) ++ faultActions 0 ++ awaitExitActions (.client 1) ++
      .api (.client 1) .go :: List.replicate 4 (.run 0 .go))

def RunPc.isFinalNotify : RunPc D → Bool
  | .finalNotifyLifecycle => true
  | _ => false

/-- The test that the last notification of a worker comes while the lifecycle mutex is free. -/
def World.notifiesUnlocked (w : World D) : Action D → Bool
  | .run n _ => !(w.workers n).pc.isFinalNotify || w.locks .lifecycle = none
  | _ => true

theorem notifiesWaiters_of_test {a : Action D} (ho : Orderly w) (h : w.notifiesUnlocked a = true) :
    NotifiesWaiters w a := by
  cases a with
  | run n c =>
    intro hpc t
    refine eq_false_of_ne_true fun ht => ?_
    obtain ⟨callback, hapi⟩ := checksExit_iff.mp ht
    have hheld := (ho.locked .lifecycle t).mpr (.inl (by simp [hapi, ApiPc.held, StartPc.held]))
    simp [World.notifiesUnlocked, hpc, RunPc.isFinalNotify, hheld] at h
  | _ => trivial

theorem wakes_for_exit_wokenClient :
    .client 1 ∈ waitingClient.1.impl.lifecycleCv ∧ .client 1 ∉ wokenClient.1.impl.lifecycleCv ∧
      (wokenClient.1.api (.client 1)).awaitsExit = true ∧
      (wokenClient.1.workers 0).pc.running = false ∧ ¬ wokenClient.1.sleepsThroughExit := by
  have hrun : (machine (demoConfig .failStop)).RunIf (fun w a => w.notifiesUnlocked a = true)
      (World.initial 1) wokenClient.2 wokenClient.1 :=
    Machine.runIf_perform World.notifiesUnlocked (by decide +kernel) fun _ _ => id
  exact ⟨by decide +kernel, by decide +kernel, by decide +kernel, by decide +kernel,
    wakes_for_exit.1 1 wokenClient.2 _
      (hrun.mono fun hv => notifiesWaiters_of_test (Reachable.orderly ⟨1, hv⟩))⟩

/-! ## The wait for the reconnect delay -/

/-- The worker has evaluated `stopping_` to false and is not enqueued yet. -/
def RunPc.checksStop : RunPc D → Bool
  | .backoffBlock _ => true
  | _ => false

/-- The worker is at its wait, enqueued or woken. -/
def RunPc.awaitsStop : RunPc D → Bool
  | .backoffAsleep _ => true
  | _ => false

/-- `stop` has set the flag and not yet made its first notification. -/
def ApiPc.owesNotify : ApiPc D → Bool
  | .stop .notifyFirst => true
  | _ => false

def ApiPc.stopJoins (n : Nat) : ApiPc D → Bool
  | .stop (.join k) => k = n
  | _ => false

/-- A worker is enqueued in its reconnect delay with `stopping` set, and the `stop` that set it
has made its notification: none is owed, or a `stop` is already joining the worker. -/
def World.sleepsThroughStop (w : World D) : Prop :=
  ∃ n, (w.workers n).pc.awaitsStop = true ∧ .worker n ∈ w.impl.firstSampleCv ∧
    w.impl.stopping = true ∧
    ((∀ t, (w.api t).owesNotify = false) ∨ ∃ t, (w.api t).stopJoins n = true)

/-- `stop` does not make its first notification while a worker stands between the evaluation of
its predicate and the wait. -/
def NotifiesBackoff (w : World D) : Action D → Prop
  | .api t _ => (w.api t).owesNotify = true → ∀ n, (w.workers n).pc.checksStop = false
  | _ => True

/-- The worker is about to wait, or waits unnotified. -/
def World.drowsy (w : World D) (n : Nat) : Prop :=
  (w.workers n).pc.checksStop = true ∨
    (w.workers n).pc.awaitsStop = true ∧ .worker n ∈ w.impl.firstSampleCv

/-- A `stop` that joins has set the flag, and a worker that will sleep has a notification coming
if the flag is set. -/
structure Rousable (w : World D) : Prop where
  joins : ∀ t n, (w.api t).stopJoins n = true → w.impl.stopping = true
  owed : ∀ n, w.drowsy n → (w.impl.stopping = true → ∃ t, (w.api t).owesNotify = true) ∧
    ∀ t, (w.api t).stopJoins n = false

/-- What the entry points do to the waits of others on the first-sample variable. -/
theorem apiNext_firstSampleCv {p : ApiPc D} {r : ApiNext D} (hnext : apiNext w t c p = some r)
    {t' : Tid} (hne : t' ≠ t) (hmem : t' ∈ r.impl.firstSampleCv) :
    t' ∈ w.impl.firstSampleCv ∧ p.owesNotify = false := by
  cases apiNext_step hnext with
  | startNotifyFirst | rollbackNotifyFirst | stopNotifyFirst | stopped => cases hmem
  | rollbackPublish =>
    simp only [Impl.publish] at hmem
    split at hmem <;> exact ⟨hmem, rfl⟩
  | waitBlock => exact ⟨(List.mem_cons.mp hmem).resolve_left hne, rfl⟩
  | waitExpires => exact ⟨(List.mem_filter.mp hmem).1, rfl⟩
  | _ => exact ⟨hmem, rfl⟩

/-- How `stop` comes to the positions that matter: it owes a notification once it has set the
flag, and it joins only after the section with the flag set. -/
theorem apiNext_owes {p : ApiPc D} {r : ApiNext D} (hnext : apiNext w t c p = some r) :
    (r.impl.stopping = w.impl.stopping ∨ r.pc.owesNotify = true ∧ r.impl.stopping = true ∨
      p.role = .quiet ∨ p.role = .cleared) ∧
    (∀ n, r.pc.stopJoins n = true →
      p.stopFlagged = true ∧ p.owesNotify = false ∧ r.impl.stopping = w.impl.stopping) ∧
    (p.owesNotify = true → r.impl.stopping = w.impl.stopping) := by
  cases apiNext_step hnext with
  | clearStopping =>
    exact ⟨.inr (.inr (.inl rfl)), (fun _ h => by cases h), fun h => by cases h⟩
  | rollbackStopping =>
    exact ⟨.inr (.inr (.inr rfl)), (fun _ h => by cases h), fun h => by cases h⟩
  | rollbackPublish =>
    exact ⟨.inl (publish_control ..).stopping, (fun _ h => by cases h), fun h => by cases h⟩
  | stopFlag => exact ⟨.inr (.inl ⟨rfl, rfl⟩), (fun _ h => by cases h), fun h => by cases h⟩
  | stopTake => exact ⟨.inl rfl, fun _ _ => ⟨rfl, rfl, rfl⟩, fun _ => rfl⟩
  | _ => exact ⟨.inl rfl, (fun _ h => by cases h), fun _ => rfl⟩

theorem owesNotify_flagged {p : ApiPc D} (h : p.owesNotify = true) : p.stopFlagged = true := by
  cases p with
  | stop p => cases p <;> simp_all [ApiPc.owesNotify, ApiPc.stopFlagged]
  | _ => cases h

theorem stopJoins_role {p : ApiPc D} (h : p.stopJoins n = true) : p.role = .joining n := by
  cases p with
  | stop p => cases p <;> simp_all [ApiPc.stopJoins, ApiPc.role, StopPc.role]
  | _ => cases h

theorem checksStop_iff {p : RunPc D} :
    p.checksStop = true ↔ ∃ deadline, p = .backoffBlock deadline := by
  cases p <;> simp [RunPc.checksStop]

theorem World.drowsy.executing (h : w.drowsy n) : w.executing n ∧ w.inCallback n = false := by
  unfold World.drowsy at h
  cases hpc : (w.workers n).pc <;>
    simp_all [World.executing, World.inCallback, RunPc.running, RunPc.checksStop, RunPc.awaitsStop]

theorem Rousable.api (h : Rousable w) (ho : Orderly w) (hflag : StopFlag w) {r : ApiNext D}
    (hok : NotifiesBackoff w (.api t c)) (hnext : apiNext w t c (w.api t) = some r) :
    Rousable (w.applyApi config t r) := by
  obtain ⟨hstopping, hjoins, howes⟩ := apiNext_owes hnext
  have hpc : ∀ t', (w.applyApi config t r).api t' = if t' = t then r.pc else w.api t' :=
    fun t' => by rw [World.applyApi_api, Function.update_apply]
  constructor
  · intro t' n ht'
    rw [hpc] at ht'
    rw [World.applyApi_impl]
    split at ht'
    · obtain ⟨hsec, -, hsame⟩ := hjoins n ht'
      exact hsame.trans (hflag t hsec)
    · have hold := h.joins t' n ht'
      rcases hstopping with hsame | ⟨-, htrue⟩ | hrole
      · exact hsame.trans hold
      · exact htrue
      · -- whoever clears the flag has found no joiner
        have hjoiner := (ho.life.joiner t' n (by
          simp [World.life, stopJoins_role ht', Role.joins])).2
        rw [(ho.life.resting t hrole).2] at hjoiner
        cases hjoiner
  · intro n hd
    have hborn : n ≠ w.created := by
      rintro rfl
      have hrun := hd.executing.1
      unfold World.drowsy at hd
      simp only [World.applyApi] at hd
      split at hd
      · simp [RunPc.checksStop, RunPc.awaitsStop] at hd
      · simp [ho.nested.unborn _ (Nat.le_refl _), RunPc.checksStop, RunPc.awaitsStop] at hd
    unfold World.drowsy at hd
    rw [applyApi_workers_ne hborn, World.applyApi_impl] at hd
    -- the worker is no caller, so it was drowsy before, and this step is not its notification
    have hbefore : w.drowsy n ∧ (w.api t).owesNotify = false := by
      rcases hd with hchecks | ⟨hawaits, hmem⟩
      · refine ⟨.inl hchecks, eq_false_of_ne_true fun howe => ?_⟩
        simp [hok howe n] at hchecks
      · have hself : Tid.worker n ≠ t := by
          rintro rfl
          obtain ⟨_, _, hpc⟩ := inCallback_iff.mp (ho.nested.inCallback n (apiNext_ne_idle hnext))
          simp [hpc, RunPc.awaitsStop] at hawaits
        obtain ⟨hmem, howe⟩ := apiNext_firstSampleCv hnext hself hmem
        exact ⟨.inr ⟨hawaits, hmem⟩, howe⟩
    obtain ⟨hdrowsy, howe⟩ := hbefore
    obtain ⟨howed, hfree⟩ := h.owed n hdrowsy
    refine ⟨fun hset => ?_, fun t' => ?_⟩
    · rw [World.applyApi_impl] at hset
      rcases hstopping with hsame | ⟨hnew, -⟩ | hrole
      · obtain ⟨t', ht'⟩ := howed (hsame.symm.trans hset)
        refine ⟨t', ?_⟩
        rw [hpc, if_neg (by rintro rfl; simp [howe] at ht')]
        exact ht'
      · exact ⟨t, by rw [hpc, if_pos rfl]; exact hnew⟩
      · obtain ⟨hworker, hjoining⟩ := ho.life.resting t hrole
        exact absurd hdrowsy.executing.1 (ho.life.not_executing hworker hjoining n)
    · rw [hpc]
      split
      · refine eq_false_of_ne_true fun hj => ?_
        obtain ⟨hsec, -, -⟩ := hjoins n hj
        obtain ⟨t'', ht''⟩ := howed (hflag t hsec)
        obtain rfl := ho.locked.exclusive (stopFlagged_held (owesNotify_flagged ht''))
          (stopFlagged_held hsec)
        simp [howe] at ht''
      · exact hfree t'

theorem recordNext_firstSampleCv [Double D] {worker : Worker D} {r : RunNext D} {p : RecordPc D}
    (hnext : recordNext config w n c worker p = some r) :
    (r.impl.firstSampleCv = w.impl.firstSampleCv ∨ r.impl.firstSampleCv = []) ∧
    r.worker.pc.checksStop = false ∧ r.worker.pc.awaitsStop = false := by
  have hafter : ∀ i outcome events,
      (afterRecord i worker n outcome events : RunNext D).worker.pc.checksStop = false ∧
      (afterRecord i worker n outcome events : RunNext D).worker.pc.awaitsStop = false := by
    intro i outcome events
    cases outcome <;> exact ⟨rfl, rfl⟩
  cases p with
  | account record receivedAt rdt ft =>
    simp only [recordNext] at hnext
    split at hnext
    · cases hnext; exact ⟨.inl rfl, rfl, rfl⟩
    · rename_i haccount
      obtain ⟨-, rfl, -⟩ := account_some haccount
      split at hnext <;> cases hnext
      · exact ⟨.inl (by simp only [afterRecord_impl]; rfl), hafter ..⟩
      · exact ⟨.inl rfl, rfl, rfl⟩
  | notifyLifecycle | callbackFailed =>
    cases hnext
    exact ⟨.inl (by simp only [afterRecord_impl]; rfl), hafter ..⟩
  | notifyFirst => cases hnext; exact ⟨.inr rfl, rfl, rfl⟩
  | _ =>
    simp only [recordNext] at hnext
    (repeat' split at hnext) <;> cases hnext <;> exact ⟨.inl rfl, rfl, rfl⟩

section
variable [DecidableEq D] [Double D] {worker : Worker D} {r : RunNext D}

theorem sessionNext_firstSampleCv {p : SessionPc D}
    (hnext : sessionNext config w n c worker p = some r) :
    (r.impl.firstSampleCv = w.impl.firstSampleCv ∨ r.impl.firstSampleCv = []) ∧
    r.worker.pc.checksStop = false ∧ r.worker.pc.awaitsStop = false := by
  cases p with
  | record p => exact recordNext_firstSampleCv hnext
  | apply configuration =>
    cases hnext
    refine ⟨.inl ?_, rfl, rfl⟩
    simp only [Impl.applyConfiguration]
    split
    · split <;> rfl
    · rfl
  | _ =>
    simp only [sessionNext] at hnext
    (repeat' split at hnext) <;> cases hnext <;> exact ⟨.inl rfl, rfl, rfl⟩

/-- A worker enqueues nobody but itself, and comes to its wait only through a false predicate and
then by enqueueing. -/
theorem runNext_backoff {p : RunPc D} (hnext : runNext config w n c worker p = some r) :
    (∀ t, t ≠ .worker n → t ∈ r.impl.firstSampleCv → t ∈ w.impl.firstSampleCv) ∧
    (r.worker.pc.checksStop = true → w.impl.stopping = false) ∧
    (r.worker.pc.awaitsStop = true → p.checksStop = true) := by
  cases p with
  | session p =>
    obtain ⟨hcv, hchecks, hawaits⟩ := sessionNext_firstSampleCv hnext
    refine ⟨fun t _ hmem => ?_, by simp [hchecks], by simp [hawaits]⟩
    rcases hcv with hcv | hcv <;> rw [hcv] at hmem
    · exact hmem
    · cases hmem
  | publish code message =>
    cases hnext
    refine ⟨fun t _ hmem => ?_, (fun h => by cases h), fun h => by cases h⟩
    simp only [Impl.publish] at hmem
    split at hmem <;> exact hmem
  | publishNotifyFirst | finalNotifyFirst =>
    cases hnext
    refine ⟨?_, ?_, ?_⟩ <;> intros <;> contradiction
  | closeTransport context =>
    cases hnext
    cases context <;> refine ⟨fun _ _ => id, ?_, ?_⟩ <;> intro h <;> cases h
  | raised | finalFaulted =>
    cases hnext
    dsimp only
    split <;> refine ⟨fun _ _ => id, ?_, ?_⟩ <;> intro h <;> cases h
  | backoffWait =>
    simp only [runNext] at hnext
    (repeat' split at hnext) <;> cases hnext
    · refine ⟨fun _ _ => id, ?_, ?_⟩ <;> intro h <;> cases h
    · refine ⟨fun _ _ => id, ?_, ?_⟩ <;> intro h <;> cases h
    · exact ⟨fun _ _ => id, fun _ => by simp_all, fun h => by cases h⟩
  | backoffBlock deadline =>
    cases hnext
    exact ⟨fun t ht hmem => (List.mem_cons.mp hmem).resolve_left ht, (fun h => by cases h),
      fun _ => rfl⟩
  | backoffAsleep deadline =>
    simp only [runNext] at hnext
    (repeat' split at hnext) <;> cases hnext <;>
      refine ⟨fun t _ hmem => (List.mem_filter.mp hmem).1, ?_, fun h => by cases h⟩
    · exact fun h => by cases h
    · exact fun _ => by simp_all
  | _ =>
    simp only [runNext] at hnext
    (repeat' split at hnext) <;> cases hnext <;> refine ⟨fun _ _ => id, ?_, ?_⟩ <;> intro h <;>
      cases h

theorem Rousable.run (h : Rousable w) {r : RunNext D}
    (hnext : runNext config w n c (w.workers n) (w.workers n).pc = some r) :
    Rousable (w.applyRun n r) := by
  obtain ⟨hcv, hchecks, hawaits⟩ := runNext_backoff hnext
  have hstopping := (runNext_control hnext).stopping
  refine ⟨fun t k hj => ?_, fun k hd => ?_⟩
  · rw [World.applyRun_impl, hstopping]
    exact h.joins t k hj
  · unfold World.drowsy at hd
    rw [World.applyRun_workers, World.applyRun_impl] at hd
    rw [World.applyRun_impl, hstopping]
    by_cases hk : k = n
    · subst hk
      rw [Function.update_self] at hd
      rcases hd with hd | ⟨hd, -⟩
      · have hfalse := hchecks hd
        refine ⟨by simp [hfalse], fun t => eq_false_of_ne_true fun hj => ?_⟩
        simp [h.joins t k hj] at hfalse
      · exact h.owed k (.inl (hawaits hd))
    · rw [Function.update_of_ne hk] at hd
      refine h.owed k (hd.imp_right fun hd => ⟨hd.1, hcv _ ?_ hd.2⟩)
      simpa using hk

theorem Rousable.move {a : Action D} (h : Rousable w) (ho : Orderly w) (hflag : StopFlag w)
    (hok : NotifiesBackoff w a) (hstep : step config w a = some (w', l)) : Rousable w' := by
  cases a with
  | tick ticks => cases hstep; exact ⟨h.joins, h.owed⟩
  | spurious t =>
    cases hstep
    refine ⟨h.joins, fun n hd => h.owed n (hd.imp_right fun hd => ⟨hd.1, ?_⟩)⟩
    exact (List.mem_filter.mp hd.2).1
  | call t call =>
    simp only [step] at hstep
    (repeat' split at hstep) <;> cases hstep
    rename_i hidle _
    have hpc : ∀ t', ((w.enter t call).api t').owesNotify = (w.api t').owesNotify ∧
        ∀ n, ((w.enter t call).api t').stopJoins n = (w.api t').stopJoins n := by
      intro t'
      by_cases ht : t' = t
      · subst ht
        rw [World.enter_api, Function.update_self, hidle]
        cases call <;> exact ⟨rfl, fun _ => rfl⟩
      · rw [World.enter_api, Function.update_of_ne ht]
        exact ⟨rfl, fun _ => rfl⟩
    refine ⟨fun t' n hj => h.joins t' n ((hpc t').2 n ▸ hj), fun n hd => ?_⟩
    simpa only [hpc, World.enter_impl] using h.owed n hd
  | api t c =>
    obtain ⟨r, hnext, -, rfl, -⟩ := step_api hstep
    exact h.api ho hflag hok hnext
  | run n c =>
    obtain ⟨r, hnext, -, rfl, -⟩ := step_run hstep
    exact h.run hnext

/-- After a notification of `stop` that the worker was not ready for, it falls asleep. -/
theorem sleeps_of_missed_stop (ho : Orderly w) (hflag : StopFlag w)
    (hstep : step config w (.api t c) = some (w', l)) (ht : (w.api t).owesNotify = true)
    (hn : (w.workers n).pc.checksStop = true) :
    ∃ w'', step config w' (.run n .go) = some (w'', []) ∧ w''.sleepsThroughStop := by
  have hset := hflag t (owesNotify_flagged ht)
  obtain ⟨r, hnext, -, rfl, -⟩ := step_api hstep
  have hapi : w.api t = .stop .notifyFirst := by
    cases hpc : w.api t with
    | stop p => cases p <;> simp_all [ApiPc.owesNotify]
    | _ => simp [hpc, ApiPc.owesNotify] at ht
  rw [hapi] at hnext
  cases hnext
  obtain ⟨deadline, hpc⟩ := checksStop_iff.mp hn
  set v := w.applyApi config t
    { impl := w.impl.notifyFirst, pc := .stop .notifyLifecycle } with hv
  have hpc' : (v.workers n).pc = .backoffBlock deadline := hpc
  have hblock : step config v (.run n .go) = some (v.applyRun n
      { impl := { v.impl with firstSampleCv := .worker n :: v.impl.firstSampleCv }
        worker := { v.workers n with pc := .backoffAsleep deadline } }, []) := by
    simp [step, hpc', runNext, canTake, RunPc.needs, RunPc.held]
  refine ⟨_, hblock, n, ?_, List.mem_cons_self, hset, .inl fun t' => ?_⟩
  · simp [RunPc.awaitsStop]
  · refine eq_false_of_ne_true fun howe => ?_
    rw [World.applyRun_api, hv, World.applyApi_api] at howe
    by_cases ht' : t' = t
    · subst ht'; rw [Function.update_self] at howe; cases howe
    · rw [Function.update_of_ne ht'] at howe
      exact ht' (ho.locked.exclusive (stopFlagged_held (owesNotify_flagged howe))
        (stopFlagged_held (owesNotify_flagged ht)))

/-- A worker sleeps through a `stop` exactly when the notification of `stop` falls between the
evaluation of the predicate and the wait: in a run without such a step it never does, and after
such a step it does. -/
theorem wakes_for_stop :
    (∀ clock l w, (machine config).RunIf NotifiesBackoff (World.initial clock) l w →
      ¬ w.sleepsThroughStop) ∧
    ∀ w l t c w' l', Reachable config w l → step config w (.api t c) = some (w', l') →
      ¬ NotifiesBackoff w (.api t c) →
      ∃ n w'', step config w' (.run n .go) = some (w'', []) ∧ w''.sleepsThroughStop := by
  refine ⟨fun clock l w hrun => ?_, fun w l t c w' l' h hstep hok => ?_⟩
  · have hrouse : Rousable w := hrun.invariant (I := fun v _ => Rousable v)
      ⟨(fun _ _ h => by cases h), fun n hd => by
        simp [World.drowsy, World.initial, RunPc.checksStop, RunPc.awaitsStop] at hd⟩
      fun hv hi hok hstep => by
        have hr : Reachable config _ _ := ⟨clock, hv⟩
        exact hi.move hr.orderly hr.stopFlag hok hstep
    rintro ⟨n, hawaits, hmem, hset, hmissed⟩
    obtain ⟨howed, hfree⟩ := hrouse.owed n (.inr ⟨hawaits, hmem⟩)
    rcases hmissed with hnone | ⟨t, ht⟩
    · obtain ⟨t, ht⟩ := howed hset
      simp [hnone t] at ht
    · simp [hfree t] at ht
  · simp only [NotifiesBackoff, not_forall, Bool.not_eq_false] at hok
    obtain ⟨ht, n, hn⟩ := hok
    obtain ⟨w'', hstep', hsleeps⟩ := sleeps_of_missed_stop h.orderly h.stopFlag hstep ht hn
    exact ⟨n, w'', hstep', hsleeps⟩

end

/-- Worker `n` from its creation to a failed connection, and on to its reconnect delay. -/
def backoffActions (n : Nat) : List (Action Rat) :=
  List.replicate 6 (.run n .go) ++ .run n (.fails "no route") :: List.replicate 6 (.run n .go)

/-- A `stop` whose notification the worker misses, and that then waits for the worker. -/
def oversleepingClient : World Rat × List (Event Rat) :=
  (machine (demoConfig .reconnect)).perform (World.initial 1)
    (startActions (.client 0) ++ backoffActions 0 ++
      [.call (.client 1) .stop, .api (.client 1) .go, .api (.client 1) .go, .run 0 .go] ++
      List.replicate 4 (.api (.client 1) .go))

theorem sleepsThroughStop_reachable :
    ∃ l, Reachable (demoConfig .reconnect) oversleepingClient.1 l ∧
      oversleepingClient.1.sleepsThroughStop := by
  refine ⟨_, ⟨1, Machine.run_perform (by decide +kernel)⟩, 0, by decide +kernel, ?_, ?_, .inr ?_⟩
  · decide +kernel
  · decide +kernel
  · exact ⟨.client 1, by decide +kernel⟩

/-- A `stop` that has set the flag while the worker is enqueued. -/
def drowsyClient : World Rat × List (Event Rat) :=
  (machine (demoConfig .reconnect)).perform (World.initial 1)
    (startActions (.client 0) ++ backoffActions 0 ++
      [.run 0 .go, .call (.client 1) .stop, .api (.client 1) .go])

/-- `drowsyClient` after the notification of its `stop`. -/
def rousedClient : World Rat × List (Event Rat) :=
  (machine (demoConfig .reconnect)).perform (World.initial 1)
    (startActions (.client 0) ++ backoffActions 0 ++
      [.run 0 .go, .call (.client 1) .stop, .api (.client 1) .go, .api (.client 1) .go])

/-- The test that a `stop` makes its first notification while no worker is about to wait. -/
def World.notifiesSettled (w : World D) : Action D → Bool
  | .api t _ => !(w.api t).owesNotify ||
    (List.range w.created).all fun n => !(w.workers n).pc.checksStop
  | _ => true

theorem notifiesBackoff_of_test {a : Action D} (ho : Orderly w) (h : w.notifiesSettled a = true) :
    NotifiesBackoff w a := by
  cases a with
  | api t c =>
    intro howe n
    by_cases hborn : n < w.created
    · simp only [World.notifiesSettled, howe, Bool.not_true, Bool.false_or, List.all_eq_true,
        List.mem_range, Bool.not_eq_true'] at h
      exact h n hborn
    · rw [ho.nested.unborn n (Nat.le_of_not_lt hborn)]
      rfl
  | _ => trivial

theorem wakes_for_stop_rousedClient :
    .worker 0 ∈ drowsyClient.1.impl.firstSampleCv ∧ drowsyClient.1.impl.stopping = true ∧
      .worker 0 ∉ rousedClient.1.impl.firstSampleCv ∧
      (rousedClient.1.workers 0).pc.awaitsStop = true ∧ ¬ rousedClient.1.sleepsThroughStop := by
  have hrun : (machine (demoConfig .reconnect)).RunIf (fun w a => w.notifiesSettled a = true)
      (World.initial 1) rousedClient.2 rousedClient.1 :=
    Machine.runIf_perform World.notifiesSettled (by decide +kernel) fun _ _ => id
  exact ⟨by decide +kernel, by decide +kernel, by decide +kernel, by decide +kernel,
    wakes_for_stop.1 1 rousedClient.2 _
      (hrun.mono fun hv => notifiesBackoff_of_test (Reachable.orderly ⟨1, hv⟩))⟩

end NetFT.Client
