import NetFT.Client.Lifecycle

/-! One worker at a time, and silence after `stop`. The first part reads the worker protocol off
reachable states; the second part follows a call of `stop` that no `start` overlaps to its
return. -/

namespace NetFT.Client
open Detail Library

variable {D : Type}

/-- The thread executes `run`. -/
def RunPc.running : RunPc D → Bool
  | .unborn | .exited => false
  | _ => true

/-- Worker `n` is executing `run`. -/
def World.executing (w : World D) (n : Nat) : Prop := (w.workers n).pc.running = true

/-- There is no worker, nor a joiner of one. -/
def Impl.unmanned (i : Impl D) : Prop := i.worker = none ∧ i.joining = false

variable {config : Config D} {w w' : World D} {t : Tid} {n : Nat}

theorem running_iff (p : RunPc D) :
    p.running = true ↔ p.phase ≠ .unborn ∧ p.phase ≠ .exited := by
  cases p <;> simp [RunPc.running, RunPc.phase]

theorem Life.Inv.last_of_executing (h : w.life.Inv) (hn : w.executing n) : n + 1 = w.created := by
  obtain ⟨hborn, hexit⟩ := (running_iff _).mp hn
  exact h.last hborn hexit

/-- Without a handle and without a joiner no worker executes. -/
theorem Life.Inv.not_executing (h : w.life.Inv) (hworker : w.impl.worker = none)
    (hjoining : w.impl.joining = false) (n : Nat) : ¬ w.executing n := by
  intro hn
  have hexit := h.quiet hworker hjoining n (h.last_of_executing hn)
  exact ((running_iff _).mp hn).2 hexit

/-- A free lifecycle mutex, no handle and no joiner: no worker executes, and the exit flag is
set. -/
theorem Orderly.idle (ho : Orderly w) (hlock : w.locks .lifecycle = none)
    (hu : w.impl.unmanned) : (∀ n, ¬ w.executing n) ∧ w.impl.workerExited = true := by
  refine ⟨ho.life.not_executing hu.1 hu.2,
    ho.life.doneFlag (ho.life.no_live hu.1 hu.2) fun t ht => ?_⟩
  have hheld := held_of_exclusive (w.api t) (by
    have : (w.api t).role = .cleared := ht
    simp [this, Role.exclusive])
  simp [(ho.locked .lifecycle t).mpr (.inl hheld)] at hlock

/-! ## Positions with a closed transport -/

/-- Between sessions, and in a session before it connects. -/
def SessionPc.shut : SessionPc D → Bool
  | .connecting | .checkBeforeDiscovery | .discover | .discoverFailed _ | .apply _
  | .checkBeforeConnect | .connect => true
  | _ => false

/-- The positions of a worker at which the transport is closed. -/
def RunPc.shut : RunPc D → Bool
  | .unborn | .top | .decide _ | .enterBackoff _ | .backoffWait | .backoffBlock _
  | .backoffAsleep _ | .storeExited | .finalFaulted | .finalState | .finalNotifyFirst
  | .finalNotifyLifecycle | .exited => true
  | .session p => p.shut
  | _ => false

/-- Where no worker can have a session open there is none. -/
structure Shut (w : World D) : Prop where
  closed : (∀ n, (w.workers n).pc.shut = true) →
    w.impl.transport.socket = none ∧ w.impl.sessionStarted = false
  closing : ∀ n context, (w.workers n).pc = .closeTransport context → w.impl.sessionStarted = false

theorem shut_of_not_running {p : RunPc D} (h : p.running = false) : p.shut = true := by
  cases p <;> simp_all [RunPc.running, RunPc.shut]

theorem apiNext_shut {c : Choice D} {p : ApiPc D} {r : ApiNext D}
    (hnext : apiNext w t c p = some r) :
    r.impl.transport.socket = w.impl.transport.socket ∧
      (r.impl.sessionStarted = w.impl.sessionStarted ∨ r.impl.sessionStarted = false) := by
  cases apiNext_step hnext with
  | stopCommand => exact ⟨rfl, .inr rfl⟩
  | rollbackPublish => dsimp only [Impl.publish]; split <;> exact ⟨rfl, .inl rfl⟩
  | _ => exact ⟨rfl, .inl rfl⟩

theorem afterRecord_shut {i : Impl D} {worker : Worker D} {outcome : Option SessionResult}
    {events : List (Event D)} :
    (afterRecord i worker n outcome events).worker.pc.shut = false := by
  cases outcome <;> rfl

theorem afterRecord_ne_closing {i : Impl D} {worker : Worker D} {outcome : Option SessionResult}
    {events : List (Event D)} {context : CloseContext} :
    (afterRecord i worker n outcome events).worker.pc ≠ .closeTransport context := by
  cases outcome <;> simp [afterRecord, endSession]

theorem recordNext_not_shut [Double D] {c : Choice D} {worker : Worker D} {r : RunNext D}
    {p : RecordPc D} (hnext : recordNext config w n c worker p = some r) :
    r.worker.pc.shut = false ∧ ∀ context, r.worker.pc ≠ .closeTransport context := by
  cases p <;> simp only [recordNext] at hnext <;> (repeat' split at hnext) <;> cases hnext <;>
    first
    | exact ⟨afterRecord_shut, fun _ => afterRecord_ne_closing⟩
    | exact ⟨rfl, fun _ => fun h => by cases h⟩

section
variable [DecidableEq D] [Double D] {c : Choice D} {worker : Worker D} {r : RunNext D}

theorem sessionNext_shut {p : SessionPc D} (hnext : sessionNext config w n c worker p = some r)
    (hshut : r.worker.pc.shut = true) :
    p.shut = true ∧ r.impl.transport = w.impl.transport ∧
      r.impl.sessionStarted = w.impl.sessionStarted := by
  cases p with
  | record p => simp [(recordNext_not_shut hnext).1] at hshut
  | apply configuration =>
    cases hnext
    simp only [Impl.applyConfiguration]
    split
    · split <;> exact ⟨rfl, rfl, rfl⟩
    · exact ⟨rfl, rfl, rfl⟩
  | _ =>
    simp only [sessionNext] at hnext
    (repeat' split at hnext) <;> cases hnext <;> first | exact ⟨rfl, rfl, rfl⟩ | cases hshut

/-- A worker enters a position with a closed transport from another one, or by closing it. -/
theorem runNext_shut {p : RunPc D} (hnext : runNext config w n c worker p = some r)
    (hshut : r.worker.pc.shut = true) :
    p.shut = true ∧ r.impl.transport = w.impl.transport ∧
      r.impl.sessionStarted = w.impl.sessionStarted ∨
    (∃ context, p = .closeTransport context) ∧ r.impl.transport.socket = none ∧
      r.impl.sessionStarted = w.impl.sessionStarted := by
  cases p with
  | session p => exact .inl (sessionNext_shut hnext hshut)
  | closeTransport context => cases hnext; exact .inr ⟨⟨context, rfl⟩, rfl, rfl⟩
  | raised message =>
    cases hnext
    cases hstop : w.impl.stopping <;> simp [hstop, RunPc.shut] at hshut
  | publish => cases hnext; cases hshut
  | _ =>
    simp only [runNext] at hnext
    (repeat' split at hnext) <;> cases hnext <;>
      first | exact .inl ⟨rfl, rfl, rfl⟩ | cases hshut

theorem runNext_closing {p : RunPc D} {context : CloseContext}
    (hnext : runNext config w n c worker p = some r)
    (hpc : r.worker.pc = .closeTransport context) : r.impl.sessionStarted = false := by
  cases p with
  | session p =>
    cases p with
    | record p => exact absurd hpc ((recordNext_not_shut hnext).2 context)
    | _ =>
      simp only [runNext, sessionNext] at hnext
      (repeat' split at hnext) <;> cases hnext <;> cases hpc
  | close context' =>
    simp only [runNext] at hnext
    split at hnext
    · split at hnext <;> cases hnext
      rfl
    · cases hnext
      simp_all
  | raised message =>
    cases hnext
    cases hstop : w.impl.stopping <;> simp [hstop] at hpc
  | closeTransport context' => cases hnext; cases context' <;> cases hpc
  | finalFaulted =>
    cases hnext
    cases hfault : w.impl.faulted <;> simp [hfault] at hpc
  | _ =>
    simp only [runNext] at hnext
    (repeat' split at hnext) <;> cases hnext <;> cases hpc

theorem executing_of_next (hnext : runNext config w n c (w.workers n) (w.workers n).pc = some r) :
    w.executing n := by
  unfold World.executing
  cases hpc : (w.workers n).pc <;> simp_all [runNext, RunPc.running]

theorem Shut.move (h : Shut w) (ho : Orderly w) (hm : Moved config w w' l) : Shut w' := by
  cases hm with
  | tick | spurious | call => exact ⟨h.closed, h.closing⟩
  | api t c r hnext htake =>
    obtain ⟨hsocket, hstarted⟩ := apiNext_shut hnext
    have hworkers : ∀ k, (w.workers k).pc = ((w.applyApi config t r).workers k).pc ∨
        (w.workers k).pc = .unborn ∧ ((w.applyApi config t r).workers k).pc = .top := by
      intro k
      by_cases hk : k = w.created
      · subst hk
        have hunborn := ho.nested.unborn w.created (Nat.le_refl _)
        cases hspawn : r.spawn <;> simp [World.applyApi, hspawn, hunborn]
      · exact .inl (by rw [applyApi_workers_ne hk])
    refine ⟨fun hshut => ?_, fun k context hk => ?_⟩
    · have hold : ∀ k, (w.workers k).pc.shut = true := fun k => by
        rcases hworkers k with hsame | ⟨hunborn, -⟩
        · rw [hsame]; exact hshut k
        · rw [hunborn]; rfl
      obtain ⟨hnone, hfalse⟩ := h.closed hold
      simp only [World.applyApi_impl]
      exact ⟨hsocket.trans hnone, hstarted.elim (·.trans hfalse) id⟩
    · have hold : (w.workers k).pc = .closeTransport context := by
        rcases hworkers k with hsame | ⟨-, htop⟩
        · rw [hsame, hk]
        · simp [htop] at hk
      exact hstarted.elim (·.trans (h.closing k context hold)) id
  | run n c r hnext htake =>
    refine ⟨fun hshut => ?_, fun k context hk => ?_⟩
    · have hn := hshut n
      simp only [World.applyRun_workers, Function.update_self] at hn
      rcases runNext_shut hnext hn with ⟨hold, htransport, hstarted⟩ | ⟨⟨context, hpc⟩, hnone, hs⟩
      · obtain ⟨hnone, hfalse⟩ := h.closed fun k => by
          by_cases hk : k = n
          · rw [hk]; exact hold
          · have := hshut k
            rwa [World.applyRun_workers, Function.update_of_ne hk] at this
        simp only [World.applyRun_impl, htransport, hstarted]
        exact ⟨hnone, hfalse⟩
      · exact ⟨hnone, hs.trans (h.closing n context hpc)⟩
    · by_cases hkn : k = n
      · subst hkn
        rw [World.applyRun_workers, Function.update_self] at hk
        exact runNext_closing hnext hk
      · -- two workers would be executing
        rw [World.applyRun_workers, Function.update_of_ne hkn] at hk
        have hlast := ho.life.last_of_executing (n := k) (by simp [World.executing, hk, RunPc.running])
        have hlast' := ho.life.last_of_executing (executing_of_next hnext)
        omega

theorem Reachable.shut (h : Reachable config w l) : Shut w :=
  (h.induction (I := fun v _ => Shut v)
    (fun _ => ⟨fun _ => ⟨rfl, rfl⟩, fun _ _ hpc => by cases hpc⟩)
    fun hv hi hm => hi.move hv.orderly hm)

/-! ## Joins -/

/-- How often worker `n` was joined in a history. -/
def joinCount (l : List (Event D)) (n : Nat) : Nat :=
  (l.filterMap Event.joins).countP (·.1 = n)

theorem Reachable.joined (h : Reachable config w l) : w.life.Joined (joinCount l) := by
  refine h.induction (I := fun v k => v.life.Joined (joinCount k)) (fun clock => ?_) ?_
  · refine ⟨fun n _ => rfl, fun n hn => absurd (.inl (Nat.zero_le n)) hn⟩
  · intro v v' k k' hv hi hm
    have ho := hv.orderly
    have hcount : joinCount (k ++ k') = fun n => joinCount k n + joinCount k' n := by
      funext n
      simp [joinCount]
    rw [hcount]
    rcases hm.life ho.nested ho.locked ho.life ho.saved with ⟨o, hstep, ho'⟩ | ⟨hsame, hnone⟩
    · simpa only [joinCount, ho'] using hstep.joined ho.life hi
    · have hzero : joinCount k' = fun _ => 0 := by
        funext n
        simp [joinCount, hnone]
      rw [hsame]
      simpa [hzero] using hi

theorem Reachable.joined_ne_self (h : Reachable config w l) {t : Tid}
    (hj : .joined n t ∈ l) : t ≠ .worker n := by
  revert hj
  refine h.induction (I := fun _ k => .joined n t ∈ k → t ≠ .worker n) (fun _ h => by cases h) ?_
  intro v v' k k' hv hi hm hj
  have ho := hv.orderly
  rcases List.mem_append.mp hj with hj | hj
  · exact hi hj
  · have hmem : (n, t) ∈ k'.filterMap Event.joins := List.mem_filterMap.mpr ⟨_, hj, rfl⟩
    rcases hm.life ho.nested ho.locked ho.life ho.saved with ⟨o, hstep, ho'⟩ | ⟨-, hnone⟩
    · rw [ho'] at hmem
      obtain rfl : o = some (n, t) := by simpa using hmem
      exact hstep.not_self ho.life
    · simp [hnone] at hmem

end

/-! ## A call of `stop` that no `start` overlaps -/

def ApiPc.isIdle : ApiPc D → Bool
  | .idle => true
  | _ => false

/-- No thread executes `start`. -/
def World.noStart (w : World D) : Prop := ∀ t callback p, w.api t ≠ .start callback p

def Event.entersStart : Event D → Bool
  | .entered _ (.start _) => true
  | _ => false

/-- `start` was not entered. -/
def NoStartEntered (l : List (Event D)) : Prop := ∀ e ∈ l, e.entersStart = false

/-- The client has a fault, or its state is `Stopped`. -/
def Impl.halted (i : Impl D) : Prop := i.faulted = true ∨ i.health.state = .stopped

/-- What an entry point other than `start` can do to a client without a worker. -/
theorem apiNext_calm {c : Choice D} {p : ApiPc D} {r : ApiNext D}
    (hnext : apiNext w t c p = some r) (hp : ∀ callback q, p ≠ .start callback q) :
    (∀ callback q, r.pc ≠ .start callback q) ∧ (w.impl.halted → r.impl.halted) ∧
      (w.impl.unmanned → r.impl.unmanned) := by
  unfold Impl.halted Impl.unmanned Impl.faulted
  cases apiNext_step hnext with
  | stopIdleState | stopJoinedState =>
    exact ⟨fun _ _ => (fun h => by cases h), fun _ => .inr rfl, id⟩
  | stopClear => exact ⟨fun _ _ => (fun h => by cases h), id, fun h => ⟨h.1, rfl⟩⟩
  | stopTake _ _ hworker =>
    exact ⟨fun _ _ => (fun h => by cases h), id, fun h => by rw [h.1] at hworker; cases hworker⟩
  | _ =>
    first
    | exact absurd rfl (hp _ _)
    | exact ⟨fun _ _ => (fun h => by cases h), id, id⟩

theorem noStart_update {p : ApiPc D} (h : w.noStart) (hp : ∀ callback q, p ≠ .start callback q)
    (t' : Tid) (callback : Option Nat) (q : StartPc D) :
    Function.update w.api t p t' ≠ .start callback q := by
  by_cases hne : t' = t
  · subst hne; simpa using hp callback q
  · rw [Function.update_of_ne hne]; exact h t' callback q

/-- How far a call of `stop` on `t` has brought the client, once it has joined the worker. -/
structure Returning (w : World D) (t : Tid) : Prop where
  clear : ∀ n, w.api t = .stop (.clear n) → w.impl.halted
  final : w.api t = .stop .finalNotifyLifecycle ∨ w.api t = .stop .finalNotifyFirst →
    w.impl.unmanned ∧ w.impl.halted

/-- The worker that a thread has joined was the last one. -/
theorem not_executing_of_joined (ho : Orderly w) (hrole : w.life.role t = .joined n) (k : Nat) :
    ¬ w.executing k := by
  intro hk
  have hlast := ho.life.last_of_executing hk
  have hlast' := (ho.life.joiner t n (by simp [hrole, Role.joins])).1
  obtain rfl : k = n := by simp only [World.life] at hlast'; omega
  exact ((running_iff _).mp hk).2 (ho.life.joined t k hrole)

/-- From the last section of `stop` on no worker executes. -/
theorem Returning.not_executing (h : Returning w t) (ho : Orderly w)
    (hpc : (∃ n, w.api t = .stop (.clear n)) ∨ w.api t = .stop .finalNotifyLifecycle ∨
      w.api t = .stop .finalNotifyFirst) (k : Nat) : ¬ w.executing k := by
  rcases hpc with ⟨n, hpc⟩ | hpc
  · exact not_executing_of_joined ho (n := n) (t := t)
      (by simp [World.life, hpc, ApiPc.role, StopPc.role]) k
  · obtain ⟨⟨hworker, hjoining⟩, -⟩ := h.final hpc
    exact ho.life.not_executing hworker hjoining k

theorem Returning.next (h : Returning w t) (ho : Orderly w) {c : Choice D}
    {r : ApiNext D} (hnext : apiNext w t c (w.api t) = some r) :
    (∀ n, r.pc = .stop (.clear n) → r.impl.halted) ∧
    (r.pc = .stop .finalNotifyLifecycle ∨ r.pc = .stop .finalNotifyFirst →
      r.impl.unmanned ∧ r.impl.halted) := by
  generalize hpc : w.api t = p at hnext
  cases apiNext_step hnext with
  | stopJoinedFaulted hfault => exact ⟨fun _ _ => .inl hfault, by simp⟩
  | stopJoinedState => exact ⟨fun _ _ => .inr rfl, by simp⟩
  | @stopClear n =>
    have hjoiner := ho.life.joiner t n
      (by simp [World.life, hpc, ApiPc.role, StopPc.role, Role.joins])
    refine ⟨by simp, fun _ => ⟨⟨?_, rfl⟩, h.clear n hpc⟩⟩
    cases hworker : w.impl.worker with
    | none => rfl
    | some k => exact absurd hjoiner.2 (by simp [(ho.life.handle k hworker).2])
  | stopFinalNotifyLifecycle => exact ⟨by simp, fun _ => h.final (.inl hpc)⟩
  | _ => simp

section
variable [DecidableEq D] [Double D]

theorem noStart_move (h : w.noStart) (hm : Moved config w w' l) (hl : NoStartEntered l) :
    w'.noStart := by
  cases hm with
  | tick | spurious | run => exact h
  | call t call hidle hmay =>
    refine noStart_update h fun callback q hq => ?_
    cases call with
    | start callback' => cases hl _ (List.mem_singleton_self _)
    | _ => cases hq
  | api t c r hnext htake =>
    exact noStart_update h (apiNext_calm hnext fun callback q => h t callback q).1

theorem Returning.move (h : Returning w t) (ho : Orderly w) (hn : w.noStart)
    (hm : Moved config w w' l) : Returning w' t := by
  cases hm with
  | tick | spurious => exact ⟨h.clear, h.final⟩
  | call t' call hidle hmay =>
    by_cases ht : t = t'
    · subst ht
      constructor <;> simp only [World.enter_api, Function.update_self] <;> cases call <;>
        simp [Call.entry]
    · constructor <;> simp only [World.enter_api, Function.update_of_ne ht]
      · exact h.clear
      · exact h.final
  | run n c r hnext htake =>
    have hrun := executing_of_next hnext
    exact ⟨fun k hpc => absurd hrun (h.not_executing ho (.inl ⟨k, hpc⟩) n),
      fun hpc => absurd hrun (h.not_executing ho (.inr hpc) n)⟩
  | api t' c r hnext htake =>
    have hcalm := apiNext_calm hnext fun callback q => hn t' callback q
    by_cases ht : t = t'
    · subst ht
      constructor <;> simp only [World.applyApi_api, World.applyApi_impl, Function.update_self]
      · exact (h.next ho hnext).1
      · exact (h.next ho hnext).2
    · constructor <;> simp only [World.applyApi_api, World.applyApi_impl, Function.update_of_ne ht]
      · exact fun n hpc => hcalm.2.1 (h.clear n hpc)
      · exact fun hpc => ⟨hcalm.2.2 (h.final hpc).1, hcalm.2.1 (h.final hpc).2⟩

theorem Reachable.active_worker (h : Reachable config w l) (t : Tid)
    (ht : w.impl.activeWorkerId = some t) : ∃ n, t = .worker n := by
  revert t
  refine h.induction (I := fun v _ => ∀ t, v.life.active = some t → ∃ n, t = .worker n)
    (fun _ => (fun _ h => by cases h)) ?_
  intro v v' k k' hv hi hm
  have ho := hv.orderly
  rcases hm.life ho.nested ho.locked ho.life ho.saved with ⟨_, hstep, -⟩ | ⟨hsame, -⟩
  · exact hstep.active_worker hi
  · rw [hsame]; exact hi

/-- When `stop` returns on a thread that is not the worker, there is no worker. -/
theorem Returning.returned (h : Returning w t) (ho : Orderly w)
    (hactive : w.impl.activeWorkerId ≠ some t) (hm : Moved config w w' l)
    (hret : .returned t .stop ∈ l) : w'.impl.unmanned ∧ w'.impl.halted := by
  cases hm with
  | tick | spurious | call => simp at hret
  | run n c r hnext htake => simpa [Event.byRun] using runNext_events hnext _ hret
  | api t' c r hnext htake =>
    rw [World.applyApi_impl]
    generalize hpc : w.api t' = p at hnext
    have hquiet : p = .stop .idle ∨ p = .stop .idleState → w.impl.unmanned := fun hq =>
      ho.life.resting t' (.inl (by
        rcases hq with rfl | rfl <;> simp [World.life, hpc, ApiPc.role, StopPc.role]))
    cases apiNext_step hnext with
    | stopOnWorker hself =>
      obtain rfl : t = t' := by simpa using hret
      simp_all [Impl.isActiveWorker]
    | stopIdleFaulted hfault => exact ⟨hquiet (.inl rfl), .inl hfault⟩
    | stopIdleState => exact ⟨hquiet (.inr rfl), .inr rfl⟩
    | stopped =>
      obtain rfl : t = t' := by simpa using hret
      exact h.final (.inr hpc)
    | stopCommand _ hsend | biasSent hsend | biasRestarted hsend =>
      simpa [Event.byRun] using send_byRun hsend _ hret
    | biasFailed hsend | biasRestartFailed hsend =>
      simp only [List.mem_append, List.mem_singleton, reduceCtorEq, or_false] at hret
      simpa [Event.byRun] using send_byRun hsend _ hret
    | _ => simp at hret

/-- In state `w`, after the history `l`, a call of `stop` on `t` has just returned, and no call
of `start` overlapped it. -/
def StopReturned (config : Config D) (t : Tid) (w : World D) (l : List (Event D)) : Prop :=
  ∃ w₀ l₀ w₁ l₁ l₂ w₂ a l₃, Reachable config w₀ l₀ ∧ w₀.noStart ∧
    step config w₀ (.call t .stop) = some (w₁, l₁) ∧
    (machine config).Run w₁ l₂ w₂ ∧ NoStartEntered l₂ ∧
    step config w₂ a = some (w, l₃) ∧ .returned t .stop ∈ l₃ ∧ l = l₀ ++ l₁ ++ l₂ ++ l₃

theorem StopReturned.noStart_unmanned_halted (h : StopReturned config t w l)
    (ht : ∀ n, t ≠ .worker n) :
    Reachable config w l ∧ w.noStart ∧ w.impl.unmanned ∧ w.impl.halted := by
  obtain ⟨w₀, l₀, w₁, l₁, l₂, w₂, a, l₃, h₀, hn₀, hcall, hrun, hl₂, hret, hmem, rfl⟩ := h
  have h₁ := h₀.step hcall
  have hn₁ : w₁.noStart ∧ Returning w₁ t := by
    simp only [step] at hcall
    split at hcall
    · split at hcall
      · cases hcall
        refine ⟨noStart_update hn₀ (by simp [Call.entry]), ?_⟩
        constructor <;> simp [Call.entry]
      · cases hcall
    · cases hcall
  have h₂ : w₂.noStart ∧ Returning w₂ t := by
    refine hrun.invariant (I := fun v k => NoStartEntered k → v.noStart ∧ Returning v t)
      (fun _ => hn₁) ?_ hl₂
    intro v k a' v' k' hv hi hstep hk
    have hm := moved_of_step hstep
    obtain ⟨hn, hr⟩ := hi fun e he => hk e (List.mem_append_left _ he)
    exact ⟨noStart_move hn hm fun e he => hk e (List.mem_append_right _ he),
      hr.move (h₁.run hv).orderly hn hm⟩
  have hreach := h₁.run hrun
  have hm := moved_of_step hret
  refine ⟨hreach.step hret, noStart_move h₂.1 hm ?_, ?_⟩
  · intro e he
    cases hm with
    | call t'' call => simp at hmem
    | api t'' c r hnext =>
      have hby := apiNext_events hnext _ he
      cases e <;> simp_all [Event.byApi, Event.entersStart]
    | run n c r hnext =>
      have hby := runNext_events hnext _ he
      cases e <;> simp_all [Event.byRun, Event.entersStart]
    | _ => simp at he
  · refine h₂.2.returned hreach.orderly (fun hactive => ?_) hm hmem
    obtain ⟨n, hn⟩ := hreach.active_worker t hactive
    exact ht n hn

/-- While no `start` is entered, a client without a worker stays without one and invokes no
callback. -/
theorem unmanned_run (h : Reachable config w l) (hn : w.noStart) (hu : w.impl.unmanned)
    (hrun : (machine config).Run w l' w') (hl : NoStartEntered l') :
    w'.noStart ∧ w'.impl.unmanned ∧ ∀ n sample, .invoked n sample ∉ l' := by
  refine hrun.invariant (I := fun v k => NoStartEntered k →
    v.noStart ∧ v.impl.unmanned ∧ ∀ n sample, .invoked n sample ∉ k)
    (fun _ => ⟨hn, hu, fun _ _ => fun h => by cases h⟩) ?_ hl
  intro v k a v' k' hv hi hstep hk
  have hm := moved_of_step hstep
  obtain ⟨hn, hu, hnot⟩ := hi fun e he => hk e (List.mem_append_left _ he)
  refine ⟨noStart_move hn hm fun e he => hk e (List.mem_append_right _ he), ?_⟩
  have ho := (h.run hv).orderly
  cases hm with
  | run m c r hnext =>
    exact absurd (executing_of_next hnext) (ho.life.not_executing hu.1 hu.2 m)
  | api t c r hnext =>
    refine ⟨(apiNext_calm hnext fun callback q => hn t callback q).2.2 hu, fun n sample he => ?_⟩
    rcases List.mem_append.mp he with he | he
    · exact hnot n sample he
    · simpa [Event.byApi] using apiNext_events hnext _ he
  | _ => exact ⟨hu, by simpa using hnot⟩

/-- Over every interleaving of any number of threads: at most one worker executes; the handle is
assigned only while there is none, and every worker is joined at most once and not by itself; a
free lifecycle mutex without handle and joiner means that no worker executes; and a `stop` that no
`start` overlapped leaves a silent client when it returns on a thread other than the worker. -/
theorem single_worker_and_quiescence (h : Reachable config w l) :
    (∀ n k, w.executing n → w.executing k → n = k) ∧
    (∀ a w' l' n, step config w a = some (w', l') → w'.impl.worker = some n →
      w.impl.worker = some n ∨ w.impl.worker = none) ∧
    (∀ n, joinCount l n ≤ 1) ∧ (∀ n t, .joined n t ∈ l → t ≠ .worker n) ∧
    (w.locks .lifecycle = none → w.impl.worker = none → w.impl.joining = false →
      (∀ n, ¬ w.executing n) ∧ w.impl.workerExited = true) ∧
    ∀ t, (∀ n, t ≠ .worker n) → StopReturned config t w l →
      (∀ n, ¬ w.executing n) ∧ (∀ n < w.created, joinCount l n = 1) ∧
      w.impl.sessionStarted = false ∧ w.impl.transport.socket = none ∧
      (∀ now, (w.impl.takeHealth now).2.state = .stopped ∨
        (w.impl.takeHealth now).2.state = .faulted) ∧
      ∀ w' l', (machine config).Run w l' w' → NoStartEntered l' →
        ∀ n sample, .invoked n sample ∉ l' := by
  have ho := h.orderly
  refine ⟨fun n k hn hk => ?_, fun a w' l' n hstep hw => ?_, fun n => ?_, fun n t => h.joined_ne_self,
    fun hlock hworker hjoining => ho.idle hlock ⟨hworker, hjoining⟩, fun t ht hret => ?_⟩
  · have h₁ := ho.life.last_of_executing hn
    have h₂ := ho.life.last_of_executing hk
    omega
  · rcases (moved_of_step hstep).life ho.nested ho.locked ho.life ho.saved with
      ⟨o, hlife, -⟩ | ⟨hsame, -⟩
    · rcases hlife.worker_none ho.life with hsame | hnone | ⟨hnone, -⟩
      · exact .inl (hsame.symm.trans hw)
      · exact absurd (hnone.symm.trans hw) (fun h => by cases h)
      · exact .inr hnone
    · exact .inl ((congrArg Life.worker hsame).symm.trans hw)
  · by_cases hn : w.life.Pending n
    · rw [h.joined.pending n hn]; exact Nat.zero_le 1
    · exact Nat.le_of_eq (h.joined.done n hn)
  · obtain ⟨-, hn, hu, hhalt⟩ := hret.noStart_unmanned_halted ht
    have hnone := ho.life.not_executing hu.1 hu.2
    have hshut := h.shut.closed fun n => shut_of_not_running (by simpa [World.executing] using hnone n)
    refine ⟨hnone, fun n hlt => h.joined.done n ?_, hshut.2, hshut.1, fun now => ?_, ?_⟩
    · rintro (hle | hw | ⟨t', ht'⟩)
      · exact absurd hlt (Nat.not_lt.mpr hle)
      · exact absurd (hu.1.symm.trans hw) (fun h => by cases h)
      · have := ho.life.no_joiner hu.2 t'
        simp [ht', Role.joins] at this
    · simp only [Impl.takeHealth]
      split
      · exact .inr rfl
      · refine .inl (hhalt.resolve_left ?_)
        simp_all [Impl.faulted]
    · exact fun w' l' hrun hl => (unmanned_run h hn hu hrun hl).2.2

end

/-! ### A run -/

/-- A configuration with a fixed calibration. -/
def demoConfig (recoveryPolicy : RecoveryPolicy) : Config Rat where
  receiveTimeout := 1
  reconnectInitialDelay := 1
  reconnectMaxDelay := 1
  sampleRateLimitHz := 0
  deliverSamplesWithErrorStatus := false
  recoveryPolicy
  calibrationOverride := some {
    countsPerForceUnit := 1, countsPerTorqueUnit := 1, forceUnit := .newton
    torqueUnit := .newtonMeter }

/-- `start` on thread `t`, when there is no worker. -/
def startActions (t : Tid) : List (Action Rat) :=
  .call t (.start (some 0)) :: List.replicate 7 (.api t .go) ++
    .api t .succeeds :: List.replicate 3 (.api t .go)

/-- Worker `n` from its creation to the receive loop of its first session. -/
def openActions (n : Nat) : List (Action Rat) :=
  List.replicate 6 (.run n .go) ++
    [.run n .succeeds, .run n .go, .run n .succeeds, .run n .go, .run n .go]

/-- `stop` on thread `t` up to the join, after it was entered and with a session open. -/
def stopActions (t : Tid) : List (Action Rat) :=
  List.replicate 3 (.api t .go) ++ [.api t .succeeds, .api t .go, .api t .go]

/-- A client whose worker has opened a session. -/
def streamingClient (config : Config Rat) : World Rat × List (Event Rat) :=
  (machine config).perform (World.initial 1) (startActions (.client 0) ++ openActions 0)

/-- Another thread has entered `stop` on `streamingClient`. -/
def enteredClient : World Rat × List (Event Rat) :=
  (machine (demoConfig .failStop)).perform (streamingClient (demoConfig .failStop)).1
    [.call (.client 1) .stop]

/-- The `stop` of `enteredClient` has joined the worker. -/
def joinedClient : World Rat × List (Event Rat) :=
  (machine (demoConfig .failStop)).perform enteredClient.1
    (stopActions (.client 1) ++ List.replicate 11 (.run 0 .go) ++
      List.replicate 5 (.api (.client 1) .go))

/-- The `stop` of `enteredClient` has returned. -/
def stoppedClient : World Rat × List (Event Rat) :=
  (machine (demoConfig .failStop)).perform joinedClient.1 [.api (.client 1) .go]

theorem noStart_streamingClient (config : Config Rat)
    (h : ((machine config).exec (World.initial 1)
      (startActions (.client 0) ++ openActions 0)).isSome)
    (hidle : ((streamingClient config).1.api (.client 0)).isIdle = true) :
    (streamingClient config).1.noStart := by
  intro t callback p hpc
  by_cases ht : t = .client 0
  · subst ht
    simp [hpc, ApiPc.isIdle] at hidle
  · have hsame := exec_api_of_ne (Machine.exec_eq_perform h) (t := t) (by
      have : ∀ a ∈ startActions (.client 0) ++ openActions 0,
          a.caller = none ∨ a.caller = some (.client 0) := by decide
      intro a ha heq
      rcases this a ha with hnone | hsome
      · simp [hnone] at heq
      · exact ht (Option.some.inj (heq.symm.trans hsome)))
    rw [show (streamingClient config).1.api t = .idle from hsame] at hpc
    cases hpc

/-- The events of that run. -/
def stoppedEvents : List (Event Rat) :=
  (streamingClient (demoConfig .failStop)).2 ++ enteredClient.2 ++ joinedClient.2 ++ stoppedClient.2

theorem stopReturned_stoppedClient :
    StopReturned (demoConfig .failStop) (.client 1) stoppedClient.1 stoppedEvents := by
  have h₀ : Reachable (demoConfig .failStop) (streamingClient (demoConfig .failStop)).1
      (streamingClient (demoConfig .failStop)).2 := ⟨1, Machine.run_perform (by decide +kernel)⟩
  have hn := noStart_streamingClient (demoConfig .failStop) (by decide +kernel) (by decide +kernel)
  have hcall : (machine (demoConfig .failStop)).step (streamingClient (demoConfig .failStop)).1
      (.call (.client 1) .stop) = some enteredClient := Machine.step_perform (by decide +kernel)
  have hjoin : (machine (demoConfig .failStop)).Run enteredClient.1 joinedClient.2 joinedClient.1 :=
    Machine.run_perform (by decide +kernel)
  have hret : (machine (demoConfig .failStop)).step joinedClient.1 (.api (.client 1) .go) =
      some stoppedClient := Machine.step_perform (by decide +kernel)
  exact ⟨_, _, _, _, _, _, .api (.client 1) .go, stoppedClient.2, h₀, hn, hcall, hjoin,
    by unfold NoStartEntered; decide +kernel, hret, by decide +kernel, rfl⟩

theorem single_worker_and_quiescence_of_stop :
    ∃ l, Reachable (demoConfig .failStop) stoppedClient.1 l ∧
      StopReturned (demoConfig .failStop) (.client 1) stoppedClient.1 l ∧
      joinCount l 0 = 1 ∧ stoppedClient.1.impl.transport.socket = none ∧
      stoppedClient.1.impl.sessionStarted = false := by
  have hstop := stopReturned_stoppedClient
  have hw := (hstop.noStart_unmanned_halted (fun _ h => by cases h)).1
  obtain ⟨-, hjoined, hstarted, hsocket, -⟩ :=
    (single_worker_and_quiescence hw).2.2.2.2.2 (.client 1) (fun _ h => by cases h) hstop
  exact ⟨_, hw, hstop, hjoined 0 (by decide +kernel), hsocket, hstarted⟩

end NetFT.Client
