import NetFT.Client.Frame
import NetFT.Client.Life

/-! The client follows the worker protocol of `NetFT.Client.Life`: every step of the client is a
step of the protocol or leaves its state alone (`Moved.life`). -/

namespace NetFT.Client
open Detail Library

variable {D : Type}

/-! ## Roles and phases -/

def RollbackPc.role : RollbackPc → Role
  | .stopping | .exited => .cleared
  | _ => .quiet

def StartPc.role : StartPc D → Role
  | .lock => .free
  | .joinable => .settled
  | .join n => .joining n
  | .reaped n => .joined n
  | .save | .recordReset _ | .dataReset _ | .clearStopping _ | .clearExited _ => .quiet
  | .create _ => .cleared
  | .setActive => .activating
  | .rollback p _ => p.role
  | _ => .past

def StopPc.role : StopPc → Role
  | .joiningBlock | .joiningAsleep | .finalNotifyLifecycle | .finalNotifyFirst => .past
  | .idle | .idleState => .quiet
  | .join n => .joining n
  | .joined n | .joinedState n | .clear n => .joined n
  | _ => .free

def ApiPc.role : ApiPc D → Role
  | .start _ p => p.role
  | .stop p => p.role
  | _ => .free

def RunPc.phase : RunPc D → Phase
  | .unborn => .unborn
  | .finalFaulted | .finalState | .finalNotifyFirst | .finalNotifyLifecycle => .stored
  | .exited => .exited
  | _ => .live

def World.life (w : World D) : Life where
  worker := w.impl.worker
  joining := w.impl.joining
  workerExited := w.impl.workerExited
  active := w.impl.activeWorkerId
  created := w.created
  phase n := (w.workers n).pc.phase
  role t := (w.api t).role

/-- The state that `start` has saved, from when on it could roll back to it. -/
def ApiPc.previous : ApiPc D → Option (Impl.Previous D)
  | .start _ (.recordReset p) | .start _ (.dataReset p) | .start _ (.clearStopping p)
  | .start _ (.clearExited p) | .start _ (.create p) | .start _ (.rollback _ p) => some p
  | _ => none

/-- The exit flag that `start` saves is set: no worker executes at that time. -/
def SavedExited (w : World D) : Prop :=
  ∀ t p, (w.api t).previous = some p → p.workerExited = true

variable {config : Config D} {w w' : World D} {t : Tid} {r : ApiNext D}

theorem held_of_exclusive (pc : ApiPc D) (h : pc.role.exclusive = true) :
    .lifecycle ∈ pc.held := by
  cases pc with
  | start callback p =>
    cases p with
    | rollback => exact List.mem_singleton_self _
    | _ => simp_all [ApiPc.role, StartPc.role, Role.exclusive, ApiPc.held, StartPc.held]
  | stop p => cases p <;> simp_all [ApiPc.role, StopPc.role, Role.exclusive, ApiPc.held, StopPc.held]
  | _ => simp [ApiPc.role, Role.exclusive] at h

/-- A thread that holds the lifecycle mutex, or takes it, is alone. -/
theorem Locked.alone (h : Locked w)
    (htake : canTake w.locks (w.api t).held ((w.api t).needs ++ r.pc.held) = true)
    (hm : .lifecycle ∈ (w.api t).held ∨ .lifecycle ∈ (w.api t).needs) : w.life.Alone t := by
  intro t' hne
  by_contra hex
  have hheld := held_of_exclusive (w.api t') (eq_true_of_ne_false hex)
  exact hne (h.owner_api htake hm ((h .lifecycle t').mpr (.inl hheld)))

theorem Nested.live (h : Nested w) (hne : w.api (.worker n) ≠ .idle) :
    w.life.phase n = .live := by
  obtain ⟨sample, outcome, hpc⟩ := inCallback_iff.mp (h.inCallback n hne)
  simp [World.life, hpc, RunPc.phase]

/-- Passing the test for the worker itself. -/
theorem Nested.passes (h : Nested w) (hne : w.api t ≠ .idle)
    (hself : w.impl.isActiveWorker t = false) : w.life.Passes t := by
  intro _
  refine ⟨fun hact => ?_, fun n hn => ?_⟩
  · simp [Impl.isActiveWorker] at hself
    exact hself hact.1 hact.2
  · subst hn
    exact h.live hne

theorem passes_of_role (h : w.life.role t ≠ .free) : w.life.Passes t := fun hf => absurd hf h

/-- The members that the protocol is about. -/
def Impl.sameLife (i i' : Impl D) : Prop :=
  i'.worker = i.worker ∧ i'.joining = i.joining ∧ i'.workerExited = i.workerExited ∧
    i'.activeWorkerId = i.activeWorkerId

/-- The protocol's view of a step that does not create a worker. -/
theorem life_applyApi (hspawn : r.spawn = false) :
    (w.applyApi config t r).life =
      { w.life with
        worker := r.impl.worker
        joining := r.impl.joining
        workerExited := r.impl.workerExited
        active := r.impl.activeWorkerId
        role := Function.update w.life.role t r.pc.role } := by
  simp only [World.life, World.applyApi, hspawn, Bool.false_eq_true, if_false]
  congr
  funext t'
  simp only [Function.update_apply]
  split <;> rfl

/-- The protocol's view of the creation of a worker. -/
theorem life_applyApi_spawn (hspawn : r.spawn = true) :
    (w.applyApi config t r).life =
      { worker := r.impl.worker
        joining := r.impl.joining
        workerExited := r.impl.workerExited
        active := r.impl.activeWorkerId
        created := w.created + 1
        phase := Function.update w.life.phase w.created .live
        role := Function.update w.life.role t r.pc.role } := by
  simp only [World.life, World.applyApi, hspawn, if_true]
  congr <;> funext k <;> simp only [Function.update_apply] <;> split <;> rfl

/-- A step that changes none of the members of the protocol changes at most the thread's role. -/
theorem life_applyApi_same (hspawn : r.spawn = false) (h : w.impl.sameLife r.impl) :
    (w.applyApi config t r).life =
      { w.life with role := Function.update w.life.role t r.pc.role } := by
  obtain ⟨hworker, hjoining, hexited, hactive⟩ := h
  rw [life_applyApi hspawn, hworker, hjoining, hexited, hactive]
  rfl

theorem life_applyApi_of_role (hspawn : r.spawn = false) (h : w.impl.sameLife r.impl)
    (hrole : r.pc.role = (w.api t).role) : (w.applyApi config t r).life = w.life := by
  rw [life_applyApi_same hspawn h, hrole]
  exact congrArg (fun f => { w.life with role := f }) (Function.update_eq_self ..)

/-- The worker that an event reports as joined, and by whom. -/
def Event.joins : Event D → Option (Nat × Tid)
  | .joined n t => some (n, t)
  | _ => none

/-- A step of the client is a step of the protocol, or no step of it at all, and its events
report what the step of the protocol joins. -/
def LifeStep (w w' : World D) (l : List (Event D)) : Prop :=
  (∃ o, w.life.Step o w'.life ∧ l.filterMap Event.joins = o.toList) ∨
    w'.life = w.life ∧ l.filterMap Event.joins = []

theorem LifeStep.same (hspawn : r.spawn = false) (h : w.impl.sameLife r.impl)
    (hrole : r.pc.role = (w.api t).role) (hevents : r.events.filterMap Event.joins = []) :
    LifeStep w (w.applyApi config t r) r.events :=
  .inr ⟨life_applyApi_of_role hspawn h hrole, hevents⟩

/-- A step that changes none of the members of the protocol, but plays another role. -/
theorem LifeStep.moves (hspawn : r.spawn = false) (h : w.impl.sameLife r.impl)
    (hstep : w.life.Step none { w.life with role := Function.update w.life.role t r.pc.role })
    (hevents : r.events.filterMap Event.joins = []) :
    LifeStep w (w.applyApi config t r) r.events := by
  refine .inl ⟨none, ?_, hevents⟩
  rwa [life_applyApi_same hspawn h]

theorem LifeStep.relax (hspawn : r.spawn = false) (h : w.impl.sameLife r.impl)
    (hrole : (w.api t).role = .past ∨ (w.api t).role = .settled ∨ (w.api t).role = .quiet)
    (hr : r.pc.role = .free ∨ r.pc.role = .past)
    (hevents : r.events.filterMap Event.joins = []) :
    LifeStep w (w.applyApi config t r) r.events :=
  .moves hspawn h (.relax hrole hr) hevents

theorem send_joins {i : Impl D} {command : Command} {c : Choice D} {e : Option String}
    {events : List (Event D)} (h : i.send t command c = some (e, events)) :
    events.filterMap Event.joins = [] := by
  unfold Impl.send at h
  split at h
  · cases h; rfl
  · cases c <;> cases h <;> rfl

/-! ## Steps of the entry points -/

theorem startNext_life (hn : Nested w) (hl : Locked w) (hi : w.life.Inv) (hs : SavedExited w)
    {callback : Option Nat} {p : StartPc D} {c : Choice D} (hpc : w.api t = .start callback p)
    (hnext : startNext w t callback c p = some r)
    (htake : canTake w.locks (w.api t).held ((w.api t).needs ++ r.pc.held) = true) :
    LifeStep w (w.applyApi config t r) r.events := by
  have hne : w.api t ≠ .idle := by simp [hpc]
  have halone := hl.alone htake
  have hrole : w.life.role t = p.role := by simp [World.life, hpc, ApiPc.role]
  cases startNext_step hnext with
  -- the wait for `!joining_`
  | startJoining hself =>
    refine .moves rfl ⟨rfl, rfl, rfl, rfl⟩ (.pass hrole (hn.passes hne hself) (halone ?_)) rfl
    simp [hpc, ApiPc.needs, StartPc.needs]
  | startFree hself hjoining =>
    refine .moves rfl ⟨rfl, rfl, rfl, rfl⟩
      (.settle (.inl hrole) (hn.passes hne hself) (halone ?_) hjoining) rfl
    simp [hpc, ApiPc.needs, StartPc.needs]
  | startJoiningOver _ hjoining =>
    refine .moves rfl ⟨rfl, rfl, rfl, rfl⟩
      (.settle (.inr hrole) (passes_of_role (by simp [hrole, StartPc.role])) (halone ?_) hjoining)
      rfl
    simp [hpc, ApiPc.needs, StartPc.needs]
  -- the worker that is there
  | noWorker hworker =>
    refine .moves rfl ⟨rfl, rfl, rfl, rfl⟩ (.rest (.inr (.inr hrole))
      (passes_of_role (by simp [hrole, StartPc.role])) (halone ?_) (hi.settled t hrole) hworker) rfl
    simp [hpc, ApiPc.held, StartPc.held]
  | takeExited hworker =>
    refine .inl ⟨none, ?_, rfl⟩
    rw [life_applyApi rfl]
    exact .take (.inr (.inr hrole)) (passes_of_role (by simp [hrole, StartPc.role]))
      (halone (by simp [hpc, ApiPc.held, StartPc.held])) hworker
  | workerThere => exact .relax rfl ⟨rfl, rfl, rfl, rfl⟩ (.inr (.inl hrole)) (.inr rfl) rfl
  | workerRuns | exitSeen | exitOver | reapedNotify | started =>
    exact .relax rfl ⟨rfl, rfl, rfl, rfl⟩ (.inl hrole) (.inl rfl) rfl
  | @startJoin _ n hexit =>
    refine .inl ⟨some (n, t), ?_, rfl⟩
    rw [life_applyApi_same rfl ⟨rfl, rfl, rfl, rfl⟩]
    exact .join hrole (by simp [World.life, hexit, RunPc.phase])
  | reaped =>
    refine .inl ⟨none, ?_, rfl⟩
    rw [life_applyApi rfl]
    exact .release hrole (halone (by simp [hpc, ApiPc.needs, StartPc.needs]))
  -- the reset and the thread
  | clearExited =>
    refine .inl ⟨none, ?_, rfl⟩
    rw [life_applyApi rfl]
    exact .clear hrole (halone (by simp [hpc, ApiPc.held, StartPc.held]))
  | created =>
    refine .inl ⟨none, ?_, rfl⟩
    rw [life_applyApi_spawn rfl]
    exact .create hrole (halone (by simp [hpc, ApiPc.held, StartPc.held]))
  | setActive =>
    refine .inl ⟨none, ?_, rfl⟩
    rw [life_applyApi rfl]
    exact .activate hrole (halone (by simp [hpc, ApiPc.held, StartPc.held]))
  -- the rollback
  | @rollbackExited _ previous =>
    have hprevious := hs t previous (by simp [hpc, ApiPc.previous])
    refine .inl ⟨none, ?_, rfl⟩
    rw [life_applyApi rfl]
    simp only [hprevious]
    exact .restore hrole (halone (by simp [hpc, ApiPc.held, StartPc.held]))
  | @rollbackPublish _ previous =>
    have h := publish_control (i := w.impl) previous.fault previous.health.lastError
    exact .same rfl ⟨h.worker, h.joining, publish_workerExited .., h.activeWorkerId⟩
      (by simp [hpc, ApiPc.role, StartPc.role, RollbackPc.role]) rfl
  | rolledBack =>
    exact .relax rfl ⟨rfl, rfl, rfl, rfl⟩
      (by simp [hpc, ApiPc.role, StartPc.role, RollbackPc.role]) (.inl rfl) rfl
  | _ =>
    exact .same rfl ⟨rfl, rfl, rfl, rfl⟩
      (by simp [hpc, ApiPc.role, StartPc.role, RollbackPc.role]) rfl

theorem stopNext_life (hn : Nested w) (hl : Locked w) {p : StopPc} {c : Choice D}
    (hpc : w.api t = .stop p) (hnext : stopNext w t c p = some r)
    (htake : canTake w.locks (w.api t).held ((w.api t).needs ++ r.pc.held) = true) :
    LifeStep w (w.applyApi config t r) r.events := by
  have hne : w.api t ≠ .idle := by simp [hpc]
  have halone := hl.alone htake
  have hrole : w.life.role t = p.role := by simp [World.life, hpc, ApiPc.role]
  cases stopNext_step hnext with
  | stopCommand _ hsend =>
    exact .same rfl ⟨rfl, rfl, rfl, rfl⟩ (by simp [hpc, ApiPc.role, StopPc.role])
      (send_joins hsend)
  | stopJoining hself =>
    refine .moves rfl ⟨rfl, rfl, rfl, rfl⟩ (.pass hrole (hn.passes hne hself) (halone ?_)) rfl
    simp [hpc, ApiPc.held, StopPc.held]
  | stopNoWorker hself hjoining hworker =>
    refine .moves rfl ⟨rfl, rfl, rfl, rfl⟩
      (.rest (.inl hrole) (hn.passes hne hself) (halone ?_) hjoining hworker) rfl
    simp [hpc, ApiPc.held, StopPc.held]
  | stopTake hself _ hworker =>
    refine .inl ⟨none, ?_, rfl⟩
    rw [life_applyApi rfl]
    exact .take (.inl hrole) (hn.passes hne hself)
      (halone (by simp [hpc, ApiPc.held, StopPc.held])) hworker
  | stopJoiningOver | stopped =>
    exact .relax rfl ⟨rfl, rfl, rfl, rfl⟩ (.inl hrole) (.inl rfl) rfl
  | stopIdleFaulted | stopIdleState =>
    exact .relax rfl ⟨rfl, rfl, rfl, rfl⟩ (.inr (.inr hrole)) (.inl rfl) rfl
  | @stopJoin n hexit =>
    refine .inl ⟨some (n, t), ?_, rfl⟩
    rw [life_applyApi_same rfl ⟨rfl, rfl, rfl, rfl⟩]
    exact .join hrole (by simp [World.life, hexit, RunPc.phase])
  | stopClear =>
    refine .inl ⟨none, ?_, rfl⟩
    rw [life_applyApi rfl]
    exact .release hrole (halone (by simp [hpc, ApiPc.held, StopPc.held]))
  | _ => exact .same rfl ⟨rfl, rfl, rfl, rfl⟩ (by simp [hpc, ApiPc.role, StopPc.role]) rfl

/-- Only `start` and `stop` have a part in the protocol. -/
theorem apiNext_life (hn : Nested w) (hl : Locked w) (hi : w.life.Inv) (hs : SavedExited w)
    {c : Choice D} (hnext : apiNext w t c (w.api t) = some r)
    (htake : canTake w.locks (w.api t).held ((w.api t).needs ++ r.pc.held) = true) :
    LifeStep w (w.applyApi config t r) r.events := by
  cases hpc : w.api t with
  | idle => simp [hpc, apiNext] at hnext
  | start callback p =>
    rw [hpc] at hnext
    exact startNext_life hn hl hi hs hpc hnext htake
  | stop p =>
    rw [hpc] at hnext
    exact stopNext_life hn hl hpc hnext htake
  | bias p =>
    rw [hpc] at hnext
    cases apiNext_step hnext with
    | biasSent h | biasFailed h | biasRestarted h | biasRestartFailed h =>
      exact .same rfl ⟨rfl, rfl, rfl, rfl⟩ (by simp [hpc, ApiPc.role])
        (by simp [send_joins h, Event.joins])
    | _ => exact .same rfl ⟨rfl, rfl, rfl, rfl⟩ (by simp [hpc, ApiPc.role]) rfl
  | wait p | query p =>
    rw [hpc] at hnext
    cases apiNext_step hnext <;>
      exact .same rfl ⟨rfl, rfl, rfl, rfl⟩ (by simp [hpc, ApiPc.role]) rfl

/-- While a thread is quiet, no worker executes. -/
theorem exited_of_quiet (hi : w.life.Inv) (halone : w.life.Alone t)
    (hrole : w.life.role t = .quiet) : w.impl.workerExited = true := by
  obtain ⟨hworker, hjoining⟩ := hi.resting t (.inl hrole)
  refine hi.doneFlag (hi.no_live hworker hjoining) fun t' hr => ?_
  by_cases hne : t' = t
  · subst hne; simp [hrole] at hr
  · exact (halone.of_ne hne).2.2.1 hr

/-- The flags that `start` saves are passed on until it returns. -/
theorem saved_of_next {c : Choice D} {p : Impl.Previous D}
    (hnext : apiNext w t c (w.api t) = some r) (hp : r.pc.previous = some p) :
    (∃ p', (w.api t).previous = some p' ∧ p.workerExited = p'.workerExited) ∨
    (∃ callback, w.api t = .start callback .save ∧ p.workerExited = w.impl.workerExited) := by
  generalize w.api t = p at hnext ⊢
  cases apiNext_step hnext with
  | save => cases hp; exact .inr ⟨_, rfl, rfl⟩
  | recordReset | dataReset | clearStopping | clearExited | notCreated | rollbackStopping
  | rollbackExited | rollbackRecord | rollbackData | rollbackFault | rollbackNoFault
  | rollbackPublish | rollbackNotifyFirst => cases hp; exact .inl ⟨_, rfl, rfl⟩
  | _ => cases hp

/-! ## Steps of the worker -/

@[simp] theorem afterRecord_phase {i : Impl D} {worker : Worker D} {n : Nat}
    {outcome : Option SessionResult} {events : List (Event D)} :
    (afterRecord i worker n outcome events).worker.pc.phase = .live := by
  cases outcome <;> rfl

theorem life_applyRun {n : Nat} {q : RunNext D} (h : SameControl w.impl q.impl) :
    (w.applyRun n q).life =
      { w.life with
        workerExited := q.impl.workerExited
        phase := Function.update w.life.phase n q.worker.pc.phase } := by
  simp only [World.life, World.applyRun, h.worker, h.joining, h.activeWorkerId]
  congr
  funext k
  simp only [Function.update_apply]
  split <;> rfl

theorem life_initial (clock : TimePoint) : (World.initial clock : World D).life.Inv := by
  constructor <;> simp [World.life, World.initial, ApiPc.role, Role.joins, RunPc.phase]

theorem recordNext_phase [Double D] {n : Nat} {c : Choice D} {worker : Worker D} {q : RunNext D}
    {p : RecordPc D} (hnext : recordNext config w n c worker p = some q) :
    q.worker.pc.phase = .live ∧ q.impl.workerExited = w.impl.workerExited := by
  cases p with
  | account record receivedAt rdt ft =>
    simp only [recordNext] at hnext
    split at hnext
    · cases hnext; exact ⟨rfl, rfl⟩
    · rename_i haccount
      obtain ⟨-, rfl, -⟩ := account_some haccount
      split at hnext <;> cases hnext
      · exact ⟨afterRecord_phase, by rw [afterRecord_impl]; rfl⟩
      · exact ⟨rfl, rfl⟩
  | callbackFailed | notifyLifecycle =>
    cases hnext
    exact ⟨afterRecord_phase, by rw [afterRecord_impl]; rfl⟩
  | _ =>
    simp only [recordNext] at hnext
    (repeat' split at hnext) <;> cases hnext <;> exact ⟨rfl, rfl⟩

theorem recordNext_joins [Double D] {n : Nat} {c : Choice D} {worker : Worker D} {q : RunNext D}
    {p : RecordPc D} (hnext : recordNext config w n c worker p = some q) :
    q.events.filterMap Event.joins = [] := by
  cases p <;> simp only [recordNext] at hnext <;> (repeat' split at hnext) <;> cases hnext <;>
    first | rfl | (unfold afterRecord; split <;> rfl)

section
variable [DecidableEq D] [Double D] {n : Nat} {c : Choice D} {worker : Worker D} {q : RunNext D}

theorem sessionNext_phase {p : SessionPc D} (hnext : sessionNext config w n c worker p = some q) :
    q.worker.pc.phase = .live ∧ q.impl.workerExited = w.impl.workerExited := by
  cases p with
  | record p => exact recordNext_phase hnext
  | apply configuration => cases hnext; simp [RunPc.phase]
  | _ =>
    simp only [sessionNext] at hnext
    (repeat' split at hnext) <;> cases hnext <;> exact ⟨rfl, rfl⟩

/-- The worker changes its phase in two steps: it stores the exit flag, and it ends. -/
theorem runNext_phase {p : RunPc D} (hnext : runNext config w n c worker p = some q) :
    q.worker.pc.phase = p.phase ∧ q.impl.workerExited = w.impl.workerExited ∨
    p.phase = .live ∧ q.worker.pc.phase = .stored ∧ q.impl.workerExited = true ∨
    p.phase = .stored ∧ q.worker.pc.phase = .exited ∧
      q.impl.workerExited = w.impl.workerExited := by
  cases p with
  | session p => exact .inl (sessionNext_phase hnext)
  | publish code message => cases hnext; exact .inl ⟨rfl, publish_workerExited ..⟩
  | storeExited => cases hnext; exact .inr (.inl ⟨rfl, rfl, rfl⟩)
  | finalNotifyLifecycle => cases hnext; exact .inr (.inr ⟨rfl, rfl, rfl⟩)
  | finalFaulted =>
    cases hnext
    refine .inl ⟨?_, rfl⟩
    cases w.impl.faulted <;> rfl
  | raised message =>
    cases hnext
    refine .inl ⟨?_, rfl⟩
    cases w.impl.stopping <;> rfl
  | closeTransport context => cases hnext; refine .inl ⟨?_, rfl⟩; cases context <;> rfl
  | _ =>
    simp only [runNext] at hnext
    (repeat' split at hnext) <;> cases hnext <;> exact .inl ⟨rfl, rfl⟩

theorem sessionNext_joins {p : SessionPc D} (hnext : sessionNext config w n c worker p = some q) :
    q.events.filterMap Event.joins = [] := by
  cases p with
  | record p => exact recordNext_joins hnext
  | sendStart =>
    simp only [sessionNext] at hnext
    split at hnext <;> cases hnext <;> exact send_joins ‹_›
  | connect =>
    simp only [sessionNext, Impl.closedEvents] at hnext
    (repeat' split at hnext) <;> cases hnext <;> rfl
  | _ =>
    simp only [sessionNext] at hnext
    (repeat' split at hnext) <;> cases hnext <;> rfl

/-- A worker joins nobody. -/
theorem runNext_joins {p : RunPc D} (hnext : runNext config w n c worker p = some q) :
    q.events.filterMap Event.joins = [] := by
  cases p with
  | session p => exact sessionNext_joins hnext
  | close context =>
    simp only [runNext] at hnext
    (repeat' split at hnext) <;> cases hnext
    · exact send_joins ‹_›
    · rfl
  | closeTransport context =>
    cases hnext
    simp only [Impl.closedEvents]
    split <;> rfl
  | publish code message => cases hnext; dsimp only; split <;> rfl
  | _ =>
    simp only [runNext] at hnext
    (repeat' split at hnext) <;> cases hnext <;> rfl

theorem runNext_life (hnext : runNext config w n c (w.workers n) (w.workers n).pc = some q) :
    LifeStep w (w.applyRun n q) q.events := by
  unfold LifeStep
  rw [life_applyRun (runNext_control hnext)]
  have hevents := runNext_joins hnext
  rcases runNext_phase hnext with ⟨hphase, hflag⟩ | ⟨hlive, hphase, hflag⟩ | ⟨hs, hphase, hflag⟩
  · refine .inr ⟨?_, hevents⟩
    rw [hphase, hflag]
    exact congrArg (fun f => { w.life with phase := f }) (Function.update_eq_self ..)
  · rw [hphase, hflag]
    exact .inl ⟨none, .store hlive, hevents⟩
  · rw [hphase, hflag]
    exact .inl ⟨none, .exit hs, hevents⟩

/-! ## Reachable states -/

/-- Every step of the client is a step of the protocol or leaves its state alone. -/
theorem Moved.life (hn : Nested w) (hl : Locked w) (hi : w.life.Inv) (hs : SavedExited w)
    (hm : Moved config w w' l) : LifeStep w w' l := by
  cases hm with
  | tick | spurious => exact .inr ⟨rfl, rfl⟩
  | call t call hidle hmay =>
    refine .inr ⟨congrArg (fun f => { w.life with role := f }) (funext fun t' => ?_), rfl⟩
    simp only [World.enter_api, Function.update_apply]
    split
    · subst t'
      rw [hidle]
      cases call <;> rfl
    · rfl
  | api t c r hnext htake => exact apiNext_life hn hl hi hs hnext htake
  | run n c r hnext htake => exact runNext_life hnext

theorem SavedExited.move (hs : SavedExited w) (hi : w.life.Inv) (hl : Locked w)
    (hm : Moved config w w' l) : SavedExited w' := by
  cases hm with
  | tick | spurious | run => exact hs
  | call t call hidle hmay =>
    intro t' p hp
    by_cases ht : t' = t
    · subst ht
      rw [World.enter_api, Function.update_self] at hp
      cases call <;> cases hp
    · rw [World.enter_api, Function.update_of_ne ht] at hp
      exact hs t' p hp
  | api t c r hnext htake =>
    intro t' p hp
    by_cases ht : t' = t
    · subst ht
      rw [World.applyApi_api, Function.update_self] at hp
      rcases saved_of_next hnext hp with ⟨p', hp', hflag⟩ | ⟨callback, hpc, hflag⟩
      · exact hflag.trans (hs t' p' hp')
      · rw [hflag]
        exact exited_of_quiet hi
          (hl.alone htake (.inl (by simp [hpc, ApiPc.held, StartPc.held])))
          (by simp [World.life, hpc, ApiPc.role, StartPc.role])
    · rw [World.applyApi_api, Function.update_of_ne ht] at hp
      exact hs t' p hp

/-- The invariant of the worker protocol, with what it needs of positions and mutexes. -/
structure Orderly (w : World D) : Prop where
  nested : Nested w
  locked : Locked w
  life : w.life.Inv
  saved : SavedExited w

theorem Reachable.orderly (h : Reachable config w l) : Orderly w := by
  refine h.preserved (fun clock => ⟨nested_initial clock, locked_initial clock,
    life_initial clock, fun t p hp => by simp [World.initial, ApiPc.previous] at hp⟩) ?_
  intro v v' k' hv hm
  refine ⟨hv.nested.move hm, hv.locked.move hv.nested hm, ?_, hv.saved.move hv.life hv.locked hm⟩
  rcases hm.life hv.nested hv.locked hv.life hv.saved with ⟨_, hstep, -⟩ | ⟨hsame, -⟩
  · exact hstep.inv hv.life
  · rw [hsame]; exact hv.life

end

end NetFT.Client
