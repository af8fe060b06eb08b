import NetFT.Client.Contention

/-! The end of a worker after `stop` was requested. Every step of the worker, other than a poll that
was interrupted, brings it nearer to its exit, whatever the environment answers and the other
threads do; and it has a next step unless it waits for a mutex that another thread holds, for its
own callback, or for the notification of its reconnect delay. -/

namespace NetFT.Client
open Detail Library

variable {D : Type}

/-- The steps of `handle_record` and of what follows it, at most, once a stop is requested. -/
def RecordPc.exitSteps : RecordPc D → Nat
  | .observe .. => 22
  | .account .. => 21
  | .copyCallback .. => 20
  | .inCallback .. => 19
  | .callbackFailed .. => 15
  | .commit .. => 18
  | .commitData .. => 17
  | .notifyFirst _ => 16
  | .notifyLifecycle _ => 15

def SessionPc.exitSteps : SessionPc D → Nat
  | .checkBeforeDiscovery | .discoverFailed _ | .checkBeforeConnect | .command | .socketFailed _
  | .loop | .timedOut | .received _ => 14
  | .connecting | .apply _ | .connect | .firstDeadline | .malformed | .recv => 15
  | .discover | .trackerReset | .pollCheck => 16
  | .sendStart | .poll _ => 17
  | .receive _ => 18
  | .now => 19
  | .valid .. => 23
  | .stamp _ => 24
  | .record p => p.exitSteps

def RunPc.exitSteps : RunPc D → Nat
  | .unborn | .exited => 0
  | .finalNotifyLifecycle => 1
  | .finalNotifyFirst => 2
  | .finalState => 3
  | .finalFaulted => 4
  | .storeExited => 5
  | .closeTransport .finish => 6
  | .close .finish => 7
  | .top | .raised _ | .publishNotifyLifecycle => 8
  | .publishNotifyFirst | .backoffWait | .backoffAsleep _ => 9
  | .publish .. | .backoffBlock _ | .enterBackoff _ => 10
  | .decide _ => 11
  | .closeTransport (.session _) => 12
  | .close (.session _) => 13
  | .session p => p.exitSteps

variable {config : Config D} {w w' : World D} {t : Tid} {n : Nat} {c : Choice D}
  {worker : Worker D} {r : RunNext D} {l l' : List (Event D)}

theorem exitSteps_le (p : RunPc D) : p.exitSteps ≤ 24 := by
  cases p with
  | session p =>
    cases p with
    | record p => cases p <;> simp [RunPc.exitSteps, SessionPc.exitSteps, RecordPc.exitSteps]
    | _ => simp [RunPc.exitSteps, SessionPc.exitSteps]
  | close context | closeTransport context => cases context <;> simp [RunPc.exitSteps]
  | _ => simp [RunPc.exitSteps]

theorem exitSteps_pos {p : RunPc D} (h : p.running = true) : 0 < p.exitSteps := by
  cases p with
  | session p =>
    cases p with
    | record p => cases p <;> simp [RunPc.exitSteps, SessionPc.exitSteps, RecordPc.exitSteps]
    | _ => simp [RunPc.exitSteps, SessionPc.exitSteps]
  | close context | closeTransport context => cases context <;> simp [RunPc.exitSteps]
  | unborn | exited => cases h
  | _ => simp [RunPc.exitSteps]

/-! ## One step -/

theorem afterRecord_exitSteps {i : Impl D} {outcome : Option SessionResult}
    {events : List (Event D)} :
    (afterRecord i worker n outcome events).worker.pc.exitSteps ≤ 14 := by
  cases outcome <;> simp [afterRecord, endSession, RunPc.exitSteps, SessionPc.exitSteps]

theorem recordNext_exitSteps [Double D] {p : RecordPc D}
    (hnext : recordNext config w n c worker p = some r) :
    r.worker.pc.exitSteps < p.exitSteps := by
  cases p <;> simp only [recordNext] at hnext <;> (repeat' split at hnext) <;> cases hnext <;>
    first
    | exact Nat.lt_of_le_of_lt afterRecord_exitSteps (by simp [RecordPc.exitSteps])
    | simp [RunPc.exitSteps, SessionPc.exitSteps, RecordPc.exitSteps]

/-- The poll is repeated. -/
def RunPc.interruptedPoll (p : RunPc D) (c : Choice D) : Bool :=
  match p, c with
  | .session (.poll _), .interrupted => true
  | _, _ => false

section
variable [DecidableEq D] [Double D]

theorem runNext_exitSteps {p : RunPc D} (hnext : runNext config w n c worker p = some r)
    (hstop : w.impl.stopping = true) :
    r.worker.pc.exitSteps < p.exitSteps ∨
      p.interruptedPoll c = true ∧ r.worker.pc.exitSteps ≤ p.exitSteps := by
  cases p with
  | session p =>
    cases p with
    | record p => exact .inl (recordNext_exitSteps hnext)
    | poll deadline =>
      simp only [runNext, sessionNext] at hnext
      (repeat' split at hnext) <;> cases hnext <;>
        simp [RunPc.exitSteps, SessionPc.exitSteps, RunPc.interruptedPoll]
    | pollCheck =>
      cases hnext
      refine .inl ?_
      dsimp only
      split <;> simp [RunPc.exitSteps, SessionPc.exitSteps]
    | _ =>
      simp only [runNext, sessionNext, hstop, if_true] at hnext
      (repeat' split at hnext) <;> cases hnext <;>
        simp [endSession, RunPc.exitSteps, SessionPc.exitSteps, RecordPc.exitSteps]
  | close context =>
    simp only [runNext] at hnext
    (repeat' split at hnext) <;> cases hnext <;> cases context <;> simp [RunPc.exitSteps]
  | closeTransport context => cases hnext; cases context <;> simp [RunPc.exitSteps]
  | finalFaulted =>
    cases hnext
    refine .inl ?_
    dsimp only
    split <;> simp [RunPc.exitSteps]
  | _ =>
    simp only [runNext, hstop, if_true, Bool.true_or, or_true] at hnext
    (repeat' split at hnext) <;> cases hnext <;> simp [nextSession, RunPc.exitSteps]

omit [DecidableEq D] [Double D] in
theorem afterRecord_ne_unborn {i : Impl D} {outcome : Option SessionResult}
    {events : List (Event D)} :
    (afterRecord i worker n outcome events).worker.pc ≠ .unborn := by
  cases outcome <;> simp [afterRecord, endSession]

theorem runNext_ne_unborn {p : RunPc D} (hnext : runNext config w n c worker p = some r) :
    r.worker.pc ≠ .unborn := by
  cases p with
  | session p =>
    cases p with
    | record p =>
      cases p <;> simp only [runNext, sessionNext, recordNext] at hnext <;>
        (repeat' split at hnext) <;> cases hnext <;>
        first | exact afterRecord_ne_unborn | simp
    | _ =>
      simp only [runNext, sessionNext] at hnext
      (repeat' split at hnext) <;> cases hnext <;> simp [endSession]
  | closeTransport context => cases hnext; cases context <;> simp
  | raised message | finalFaulted => cases hnext; dsimp only; split <;> simp
  | _ =>
    simp only [runNext] at hnext
    (repeat' split at hnext) <;> cases hnext <;> simp [nextSession]

/-- A worker that is not asleep, and whose callback is not inside the client, has a next step for
some answer of the environment. -/
theorem runNext_enabled {p : RunPc D} (hrunning : p.running = true)
    (hcallback : (∃ sample outcome, p = .session (.record (.inCallback sample outcome))) →
      w.api (.worker n) = .idle) (hawake : p.asleep w.impl w.clock n = false) :
    ∃ c r, runNext config w n c worker p = some r := by
  suffices ∃ c, (runNext config w n c worker p).isSome = true by
    obtain ⟨c, hc⟩ := this
    exact ⟨c, Option.isSome_iff_exists.mp hc⟩
  have hsend : ∀ command,
      (w.impl.send (.worker n) command (.succeeds : Choice D)).isSome = true := by
    intro command
    unfold Impl.send
    split <;> rfl
  cases p with
  | unborn | exited => cases hrunning
  | session p =>
    cases p with
    | record p =>
      cases p with
      | inCallback sample outcome =>
        refine ⟨.succeeds, ?_⟩
        simp [runNext, sessionNext, recordNext, hcallback ⟨sample, outcome, rfl⟩]
      | _ =>
        refine ⟨.succeeds, ?_⟩
        simp only [runNext, sessionNext, recordNext]
        (repeat' split) <;> simp
    | discover =>
      refine ⟨.fails "", ?_⟩
      simp only [runNext, sessionNext]
      split <;> rfl
    | recv => exact ⟨.interrupted, rfl⟩
    | sendStart =>
      refine ⟨.succeeds, ?_⟩
      obtain ⟨⟨e, events⟩, hs⟩ := Option.isSome_iff_exists.mp (hsend .startRealtime)
      simp only [runNext, sessionNext, hs]
      cases e <;> rfl
    | _ =>
      refine ⟨.succeeds, ?_⟩
      simp only [runNext, sessionNext]
      (repeat' split) <;> simp
  | close context =>
    refine ⟨.succeeds, ?_⟩
    obtain ⟨⟨e, events⟩, hs⟩ := Option.isSome_iff_exists.mp (hsend .stopStreaming)
    simp only [runNext, hs]
    split <;> rfl
  | backoffAsleep deadline =>
    refine ⟨.go, ?_⟩
    simp only [RunPc.asleep, Bool.and_eq_false_iff, decide_eq_false_iff_not] at hawake
    have hnot : ¬ (.worker n ∈ w.impl.firstSampleCv ∧ w.clock < deadline) := fun h =>
      hawake.elim (fun hmem => hmem h.1) fun hclock => hclock h.2
    simp only [runNext, hnot, if_false]
    split <;> rfl
  | _ =>
    refine ⟨.succeeds, ?_⟩
    simp only [runNext]
    (repeat' split) <;> simp

/-! ## Runs -/

/-- What a worker that has no next step waits for. -/
inductive AwaitsOther (w : World D) (n : Nat) : Prop
  | mutex (m : Mutex) (t : Tid) (hm : m ∈ (w.workers n).pc.needs) (ht : w.locks m = some t)
    (hne : t ≠ .worker n)
  | callback (hcallback : w.inCallback n = true) (hapi : w.api (.worker n) ≠ .idle)
  | notification (hasleep : (w.workers n).pc.asleep w.impl w.clock n = true)

theorem Orderly.enabled_or_awaits (ho : Orderly w) (config : Config D) (hn : w.executing n) :
    (∃ c w' l, step config w (.run n c) = some (w', l)) ∨ AwaitsOther w n := by
  by_cases hasleep : (w.workers n).pc.asleep w.impl w.clock n = true
  · exact .inr (.notification hasleep)
  by_cases hapi : w.api (.worker n) = .idle
  · have henabled : ∃ c r, runNext config w n c (w.workers n) (w.workers n).pc = some r :=
      runNext_enabled hn (fun _ => hapi) (eq_false_of_ne_true hasleep)
    obtain ⟨c, r, hnext⟩ := henabled
    by_cases htake : canTake w.locks (w.workers n).pc.held
        ((w.workers n).pc.needs ++ r.worker.pc.held) = true
    · exact .inl ⟨c, w.applyRun n r, r.events, by simp only [step, hnext, htake, if_true]⟩
    · simp only [canTake_iff, not_forall, not_or] at htake
      obtain ⟨m, hm, hheld, hlock⟩ := htake
      have hneeds : m ∈ (w.workers n).pc.needs := by
        rcases List.mem_append.mp hm with hm | hm
        · exact hm
        · exact (runNext_held hnext m hm).resolve_left hheld
      obtain ⟨t, ht⟩ := Option.ne_none_iff_exists'.mp hlock
      refine .inr (.mutex m t hneeds ht ?_)
      rintro rfl
      rcases (ho.locked m _).mp ht with hm | hm
      · rw [hapi] at hm
        cases hm
      · exact hheld hm
  · exact .inr (.callback (ho.nested.inCallback n hapi) hapi)

/-- The steps that a worker has made, but for interrupted polls. -/
def countSteps (n : Nat) (steps : Nat) (w : World D) : Action D → Nat
  | .run k c => if k = n ∧ (w.workers n).pc.interruptedPoll c = false then steps + 1 else steps
  | _ => steps

/-- A worker that is to stop, after some of its steps. -/
structure Exiting (limit n : Nat) (w : World D) (steps : Nat) : Prop where
  born : (w.workers n).pc.running = true ∨ (w.workers n).pc = .exited
  stopping : w.executing n → w.impl.stopping = true
  spent : steps + (w.workers n).pc.exitSteps ≤ limit

theorem Exiting.move {limit steps : Nat} {a : Action D} (h : Exiting limit n w steps)
    (ho : Orderly w) (hstep : step config w a = some (w', l)) :
    Exiting limit n w' (countSteps n steps w a) := by
  cases a with
  | tick | spurious => cases hstep; exact ⟨h.born, h.stopping, h.spent⟩
  | call t c =>
    simp only [step] at hstep
    (repeat' split at hstep) <;> cases hstep
    exact ⟨h.born, h.stopping, h.spent⟩
  | api t c =>
    obtain ⟨r, hnext, -, rfl, -⟩ := step_api hstep
    have hsame : (w.applyApi config t r).workers n = w.workers n := by
      refine (ho.applyApi_worker config t r n).resolve_right fun hborn => ?_
      rcases h.born with hrun | hexited
      · rw [hborn.1] at hrun
        cases hrun
      · rw [hborn.1] at hexited
        cases hexited
    refine ⟨by rw [hsame]; exact h.born, fun hn => ?_, by rw [hsame]; exact h.spent⟩
    rw [World.executing, hsame] at hn
    exact ho.apiNext_keeps_stopping hnext hn (h.stopping hn)
  | run k c =>
    obtain ⟨r, hnext, -, rfl, -⟩ := step_run hstep
    have hk := executing_of_next hnext
    by_cases hkn : k = n
    · subst hkn
      have hstop := h.stopping hk
      have hspent := h.spent
      refine ⟨?_, fun _ => (runNext_control hnext).stopping.trans hstop, ?_⟩
      · rw [World.applyRun_workers, Function.update_self]
        cases hpc : r.worker.pc with
        | unborn => exact absurd hpc (runNext_ne_unborn hnext)
        | exited => exact .inr rfl
        | _ => exact .inl rfl
      · rw [World.applyRun_workers, Function.update_self]
        rcases runNext_exitSteps hnext hstop with hlt | ⟨hpoll, hle⟩
        · simp only [countSteps]
          split <;> omega
        · simp only [countSteps, hpoll]
          simp
          omega
    · have hexited : (w.workers n).pc = .exited :=
        h.born.resolve_left fun hn => hkn (ho.executing_unique hn hk)
      have hsame : (w.applyRun k r).workers n = w.workers n := by
        rw [World.applyRun_workers, Function.update_of_ne (Ne.symm hkn)]
      refine ⟨by rw [hsame]; exact h.born, fun hn => ?_, ?_⟩
      · rw [World.executing, hsame, hexited] at hn
        cases hn
      · rw [hsame]
        simpa [countSteps, hkn] using h.spent

/-- From any state in which a stop is requested, in any run: the worker makes at most as many steps
as its position allows, which are never more than 24, other than polls that were interrupted; when
it has made them it has exited; and as long as it has not exited it has a next step, unless it waits
for a mutex that another thread holds, for its callback, or for the notification of its delay. -/
theorem exits_when_stopped (h : Reachable config w l) (hstop : w.impl.stopping = true)
    (hn : w.executing n) {steps : Nat}
    (hrun : ((machine config).withGhost (countSteps n)).Run (w, 0) l' (w', steps)) :
    steps ≤ (w.workers n).pc.exitSteps ∧ (w.workers n).pc.exitSteps ≤ 24 ∧
    (steps = (w.workers n).pc.exitSteps → (w'.workers n).pc = .exited) ∧
    ((w'.workers n).pc = .exited ∨ w'.impl.stopping = true ∧
      ((∃ c w'' l'', step config w' (.run n c) = some (w'', l'')) ∨ AwaitsOther w' n)) := by
  have hexiting : Exiting (w.workers n).pc.exitSteps n w' steps := by
    have hinit : Exiting (w.workers n).pc.exitSteps n w 0 := ⟨.inl hn, fun _ => hstop, by simp⟩
    refine hrun.invariant (I := fun s _ => Exiting (w.workers n).pc.exitSteps n s.1 s.2) hinit ?_
    intro s k a s' k' hs hi hstep
    obtain ⟨hstep, hghost⟩ := Machine.withGhost_step.mp hstep
    rw [hghost]
    exact hi.move (h.run hs.eraseGhost).orderly hstep
  have hspent := hexiting.spent
  refine ⟨by omega, exitSteps_le _, fun heq => ?_, ?_⟩
  · rcases hexiting.born with hrun' | hexited
    · have hpos := exitSteps_pos hrun'
      omega
    · exact hexited
  · rcases hexiting.born with hrun' | hexited
    · exact .inr ⟨hexiting.stopping hrun',
        (h.run hrun.eraseGhost).orderly.enabled_or_awaits config hrun'⟩
    · exact .inl hexited

end

/-- A client whose worker streams, while a `stop` on another thread waits for its mutexes to be
released. -/
def stoppingClient : World Rat × List (Event Rat) :=
  (machine (demoConfig .failStop)).perform (World.initial 1)
    (startActions (.client 0) ++ openActions 0 ++ .call (.client 1) .stop ::
      stopActions (.client 1))

theorem exits_when_stopped_stoppingClient :
    let last := ((machine (demoConfig .failStop)).withGhost (countSteps 0)).perform
      (stoppingClient.1, 0) (List.replicate 11 (.run 0 .go))
    (last.1.1.workers 0).pc.running = false ∧ last.1.2 = 11 ∧
      last.1.2 ≤ (stoppingClient.1.workers 0).pc.exitSteps := by
  have h : Reachable (demoConfig .failStop) stoppingClient.1 stoppingClient.2 :=
    ⟨1, Machine.run_perform (by decide +kernel)⟩
  have hsome : (((machine (demoConfig .failStop)).withGhost (countSteps 0)).exec
      (stoppingClient.1, 0) (List.replicate 11 (.run 0 .go))).isSome := by decide +kernel
  have hn : (stoppingClient.1.workers 0).pc.running = true := by decide +kernel
  obtain ⟨hsteps, -⟩ := exits_when_stopped h (by decide +kernel) hn (Machine.run_perform hsome)
  exact ⟨by decide +kernel, by decide +kernel, hsteps⟩

end NetFT.Client
