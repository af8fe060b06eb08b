import NetFT.Client.Lifetime
import NetFT.Library.WaitsFor

/-! The client with its mutexes taken one at a time, the mutex of the transport among them. A thread
takes what its next step needs in order, and is blocked while another thread owns the next one; the
step itself is a step of the client. Every wait goes up in an order of the threads, so that no
thread waits for itself (`Contended.deadlock_free`). -/

namespace NetFT.Client
open Detail Library

variable {D : Type}

/-! ## What a step takes -/

/-- The mutexes of a client, and the mutex of its transport. -/
inductive Lock
  | member (m : Mutex)
  | transport
  deriving DecidableEq, Repr

/-- The order in which locks are taken. -/
def Lock.rank : Lock → Nat
  | .member .lifecycle => 0
  | .member .command => 1
  | .member .record => 2
  | .member .data => 3
  | .transport => 4

theorem Lock.rank_injective : Function.Injective Lock.rank := by
  intro m m' h
  cases m with
  | transport => cases m' with
    | transport => rfl
    | member k => cases k <;> cases h
  | member k => cases m' with
    | transport => cases k <;> cases h
    | member k' => cases k <;> cases k' <;> first | rfl | cases h

/-- The next step is an operation of the transport, or may contain one. -/
def ApiPc.transports : ApiPc D → Bool
  | .stop .command | .stop .shutdown | .bias .bias | .bias .restart => true
  | _ => false

def RunPc.transports : RunPc D → Bool
  | .session .connect | .session .sendStart | .session (.receive _) | .session .pollCheck
  | .close _ | .closeTransport _ => true
  | _ => false

/-- The locks of the next step, in the order in which they are taken. -/
def ApiPc.wants (p : ApiPc D) : List Lock :=
  p.needs.map .member ++ if p.transports then [.transport] else []

def RunPc.wants (p : RunPc D) : List Lock :=
  p.needs.map .member ++ if p.transports then [.transport] else []

/-- The next step sends `StopStreaming` if a session was started. -/
def ApiPc.closes : ApiPc D → Bool
  | .stop .command => true
  | _ => false

def RunPc.closes : RunPc D → Bool
  | .close _ => true
  | _ => false

/-- Waiting on `lifecycle_cv_`. -/
def ApiPc.asleep (i : Impl D) (t : Tid) : ApiPc D → Bool
  | .start _ .joiningAsleep | .start _ .exitAsleep | .stop .joiningAsleep => t ∈ i.lifecycleCv
  | _ => false

/-- Waiting on `first_sample_cv_`. -/
def RunPc.asleep (i : Impl D) (clock : TimePoint) (n : Nat) : RunPc D → Bool
  | .backoffAsleep deadline => .worker n ∈ i.firstSampleCv && clock < deadline
  | _ => false

namespace World

/-- The locks that a thread holds between its steps. -/
def holds (w : World D) (t : Tid) : List Lock := ((w.api t).held ++ w.workerHeld t).map .member

def workerWants (w : World D) : Tid → List Lock
  | .client _ => []
  | .worker n => (w.workers n).pc.wants

/-- The locks that the next step of a thread takes. -/
def wants (w : World D) (t : Tid) : List Lock := (w.api t).wants ++ w.workerWants t

def workerAsleep (w : World D) : Tid → Bool
  | .client _ => false
  | .worker n => (w.workers n).pc.asleep w.impl w.clock n

/-- A thread that sleeps on a condition variable takes nothing. -/
def asleep (w : World D) (t : Tid) : Bool := (w.api t).asleep w.impl t || w.workerAsleep t

def workerCloses (w : World D) : Tid → Bool
  | .client _ => false
  | .worker n => (w.workers n).pc.closes

/-- Without a session there is nothing to send. -/
def spares (w : World D) (t : Tid) (m : Lock) : Bool :=
  m = .transport && !w.impl.sessionStarted && ((w.api t).closes || w.workerCloses t)

end World

/-! ## The machine -/

structure Contended (D : Type) where
  world : World D
  owner : Lock → Option Tid := fun _ => none
  /-- In `called_from_worker_thread`, at the beginning of the destructor of `Client`. -/
  probing : Tid → Bool := fun _ => false

inductive Move (D : Type)
  /-- A thread takes the next lock of its step. -/
  | take (t : Tid)
  | probe (t : Tid)
  | probed (t : Tid)
  | act (a : Action D)

/-- The thread that makes a step. -/
def Action.thread : Action D → Option Tid
  | .call t _ | .api t _ => some t
  | .run n _ => some (.worker n)
  | _ => none

namespace Contended

def wants (s : Contended D) (t : Tid) : List Lock :=
  if s.probing t then [.member .lifecycle] else s.world.wants t

/-- The next lock that a thread takes. -/
def wanted (s : Contended D) (t : Tid) : Option Lock :=
  if s.world.asleep t then none
  else (s.wants t).find? fun m => s.owner m ≠ some t && !s.world.spares t m

/-- The thread has taken what its step needs. -/
def ready (s : Contended D) (t : Tid) : Bool := !s.probing t && (s.wanted t).isNone

/-- After a step a thread owns what it holds at its new position. -/
def settle (s : Contended D) (t : Tid) (w : World D) : Contended D :=
  { s with
    world := w
    owner := fun m =>
      if m ∈ w.holds t then some t else if s.owner m = some t then none else s.owner m }

def initial (clock : TimePoint) : Contended D := { world := World.initial clock }

end Contended

section
variable [DecidableEq D] [Double D]

def Contended.step (config : Config D) (s : Contended D) :
    Move D → Option (Contended D × List (Event D))
  | .take t =>
    match s.wanted t with
    | none => none
    | some m =>
      if s.owner m = none then
        some ({ s with owner := Function.update s.owner m (some t) }, [])
      else none
  | .probe t =>
    if !s.probing t && (s.world.api t).isIdle && s.world.mayCall t then
      some ({ s with probing := Function.update s.probing t true }, [])
    else none
  | .probed t =>
    if s.probing t && s.owner (.member .lifecycle) = some t then
      some ({ s with
        probing := Function.update s.probing t false
        owner := Function.update s.owner (.member .lifecycle) none }, [])
    else none
  | .act a =>
    match Client.step config s.world a with
    | none => none
    | some (w, l) =>
      match a.thread with
      | none => some ({ s with world := w }, l)
      | some t => if s.ready t then some (s.settle t w, l) else none

def contendedMachine (config : Config D) : Machine (Contended D) (Move D) (Event D) where
  step := Contended.step config

end

/-! ## Positions -/

variable {config : Config D} {w w' : World D} {t t' : Tid} {n : Nat} {c : Choice D} {m m' : Lock}

/-- What a thread holds and what it takes next, in order. -/
theorem ApiPc.locks_sorted (p : ApiPc D) :
    (p.held.map Lock.member ++ p.wants).Pairwise (Lock.rank · < Lock.rank ·) := by
  cases p with
  | start callback p =>
    cases p with
    | rollback p =>
      cases p <;> simp [held, wants, needs, transports, StartPc.held, StartPc.needs,
        RollbackPc.needs, Lock.rank]
    | _ => simp [held, wants, needs, transports, StartPc.held, StartPc.needs, Lock.rank]
  | stop p =>
    cases p <;> simp [held, wants, needs, transports, StopPc.held, StopPc.needs, Lock.rank]
  | bias p =>
    cases p <;> simp [held, wants, needs, transports, BiasPc.held, BiasPc.needs, Lock.rank]
  | wait p =>
    cases p <;> simp [held, wants, needs, transports, WaitPc.held, WaitPc.needs]
  | query p => cases p <;> simp [held, wants, needs, transports, Query.needs]
  | idle => simp [held, wants, needs, transports]

theorem RunPc.locks_sorted (p : RunPc D) :
    (p.held.map Lock.member ++ p.wants).Pairwise (Lock.rank · < Lock.rank ·) := by
  cases p with
  | session p =>
    cases p with
    | record p =>
      cases p <;> simp [held, wants, needs, transports, SessionPc.held, SessionPc.needs,
        RecordPc.held, RecordPc.needs, Lock.rank]
    | _ => simp [held, wants, needs, transports, SessionPc.held, SessionPc.needs, Lock.rank]
  | _ => simp [held, wants, needs, transports, Lock.rank]

/-- A worker in its callback takes and holds nothing. -/
theorem workerWants_of_inCallback (h : w.inCallback n = true) :
    w.workerWants (.worker n) = [] ∧ w.workerAsleep (.worker n) = false := by
  obtain ⟨sample, outcome, hpc⟩ := inCallback_iff.mp h
  simp [World.workerWants, World.workerAsleep, hpc, RunPc.wants, RunPc.needs, SessionPc.needs,
    RecordPc.needs, RunPc.transports, RunPc.asleep]

theorem Nested.workerWants (h : Nested w) (hpc : w.api t ≠ .idle) : w.workerWants t = [] := by
  cases t with
  | client => rfl
  | worker n => exact (workerWants_of_inCallback (h.inCallback n hpc)).1

theorem isIdle_iff {p : ApiPc D} : p.isIdle = true ↔ p = .idle := by
  cases p <;> simp [ApiPc.isIdle]

theorem World.wants_idle (h : w.api t = .idle) : w.wants t = w.workerWants t := by
  simp [World.wants, h, ApiPc.wants, ApiPc.needs, ApiPc.transports]

theorem World.holds_idle (h : w.api t = .idle) : w.holds t = (w.workerHeld t).map .member := by
  simp [World.holds, h, ApiPc.held]

theorem Nested.locks_sorted (h : Nested w) (t : Tid) :
    (w.holds t ++ w.wants t).Pairwise (Lock.rank · < Lock.rank ·) := by
  by_cases hpc : w.api t = .idle
  · rw [World.wants_idle hpc, World.holds_idle hpc]
    cases t with
    | client => exact .nil
    | worker n => exact RunPc.locks_sorted _
  · rw [World.wants, World.holds, h.workerWants hpc, h.workerHeld hpc, List.append_nil,
      List.append_nil]
    exact ApiPc.locks_sorted _

/-- A thread that is in `called_from_worker_thread`, or may enter it, holds nothing. -/
theorem holds_of_mayCall (hidle : w.api t = .idle) (hmay : w.mayCall t = true) :
    w.holds t = [] := by
  rw [World.holds_idle hidle]
  cases t with
  | client => rfl
  | worker n => rw [workerHeld_of_inCallback hmay]; rfl

/-! ## Steps -/

/-- What a thread holds after a step it held before, or took for the step. -/
theorem apiNext_held {p : ApiPc D} {r : ApiNext D} (hnext : apiNext w t c p = some r) :
    ∀ m ∈ r.pc.held, m ∈ p.held ∨ m ∈ p.needs := by
  cases apiNext_step hnext <;>
    simp [ApiPc.held, ApiPc.needs, StartPc.held, StartPc.needs, StopPc.held, StopPc.needs,
      BiasPc.held, BiasPc.needs, WaitPc.held, WaitPc.needs]

section
variable [DecidableEq D] [Double D]

theorem runNext_held {worker : Worker D} {p : RunPc D} {r : RunNext D}
    (hnext : runNext config w n c worker p = some r) :
    ∀ m ∈ r.worker.pc.held, m ∈ p.held ∨ m ∈ p.needs := by
  cases p with
  | session p =>
    cases p with
    | record p =>
      have hafter : ∀ {i : Impl D} {outcome : Option SessionResult} {events : List (Event D)},
          (afterRecord i worker n outcome events).worker.pc.held = [] := fun {_ outcome _} => by
        cases outcome <;> rfl
      cases p <;> simp only [runNext, sessionNext, recordNext] at hnext <;>
        (repeat' split at hnext) <;> cases hnext <;>
        first
        | (rw [hafter]; simp)
        | simp [RunPc.held, RunPc.needs, SessionPc.held, SessionPc.needs, RecordPc.held,
            RecordPc.needs]
    | _ =>
      simp only [runNext, sessionNext] at hnext
      (repeat' split at hnext) <;> cases hnext <;>
        simp [RunPc.held, RunPc.needs, SessionPc.held, SessionPc.needs, RecordPc.held]
  | closeTransport context => cases hnext; cases context <;> simp [RunPc.held]
  | raised message | finalFaulted =>
    cases hnext
    dsimp only
    split <;> simp [RunPc.held]
  | _ =>
    simp only [runNext] at hnext
    (repeat' split at hnext) <;> cases hnext <;>
      simp [RunPc.held, RunPc.needs, SessionPc.held, nextSession]

end

/-- What a step of another thread does to a thread: it may wake it. -/
structure Beside (w w' : World D) (t : Tid) : Prop where
  api : w'.api t = w.api t
  holds : w'.holds t = w.holds t
  wants : w'.wants t = w.wants t
  awake : w.asleep t = false → w'.asleep t = false
  mayCall : w.mayCall t = true → w'.mayCall t = true

theorem beside_of_same (hapi : w'.api t = w.api t)
    (hworker : ∀ k, t = .worker k → w'.workers k = w.workers k ∨
      (w.workers k).pc = .unborn ∧ (w'.workers k).pc = .top)
    (hlifecycle : t ∈ w'.impl.lifecycleCv → t ∈ w.impl.lifecycleCv)
    (hfirst : t ∈ w'.impl.firstSampleCv → t ∈ w.impl.firstSampleCv)
    (hclock : w.clock ≤ w'.clock) : Beside w w' t := by
  have hawake : (w.api t).asleep w.impl t = false → (w'.api t).asleep w'.impl t = false := by
    rw [hapi]
    cases w.api t with
    | start callback p =>
      cases p <;> first | exact fun _ => rfl | simpa [ApiPc.asleep] using mt hlifecycle
    | stop p => cases p <;> first | exact fun _ => rfl | simpa [ApiPc.asleep] using mt hlifecycle
    | _ => exact fun _ => rfl
  cases t with
  | client k =>
    refine ⟨hapi, ?_, ?_, ?_, fun _ => rfl⟩
    · simp [World.holds, hapi, World.workerHeld]
    · simp [World.wants, hapi, World.workerWants]
    · simpa [World.asleep, World.workerAsleep] using hawake
  | worker k =>
    rcases hworker k rfl with hk | ⟨hunborn, htop⟩
    · refine ⟨hapi, ?_, ?_, ?_, ?_⟩
      · simp [World.holds, hapi, World.workerHeld, hk]
      · simp [World.wants, hapi, World.workerWants, hk]
      · simp only [World.asleep, Bool.or_eq_false_iff]
        refine fun h => ⟨hawake h.1, ?_⟩
        have hworker := h.2
        simp only [World.workerAsleep, hk] at hworker ⊢
        revert hworker
        cases (w.workers k).pc with
        | backoffAsleep deadline =>
          simp only [RunPc.asleep, Bool.and_eq_false_iff, decide_eq_false_iff_not]
          exact fun hworker => hworker.imp (mt hfirst) (mt (lt_of_le_of_lt hclock))
        | _ => exact fun _ => rfl
      · simp [World.mayCall, World.inCallback, hk]
    · -- the thread that is created had no position
      refine ⟨hapi, ?_, ?_, ?_, ?_⟩
      · simp [World.holds, hapi, World.workerHeld, hunborn, htop, RunPc.held]
      · simp [World.wants, hapi, World.workerWants, hunborn, htop, RunPc.wants, RunPc.needs,
          RunPc.transports]
      · simp only [World.asleep, Bool.or_eq_false_iff]
        exact fun h => ⟨hawake h.1, by simp [World.workerAsleep, htop, RunPc.asleep]⟩
      · simp [World.mayCall, World.inCallback, hunborn]

/-- A thread that can move is not asleep. -/
theorem awake_of_apiNext (hn : Nested w) {r : ApiNext D}
    (hnext : apiNext w t c (w.api t) = some r) : w.asleep t = false := by
  have hne := apiNext_ne_idle hnext
  have hworker : w.workerAsleep t = false := by
    cases t with
    | client => rfl
    | worker n => exact (workerWants_of_inCallback (hn.inCallback n hne)).2
  rw [World.asleep, hworker, Bool.or_false]
  generalize w.api t = p at hnext
  cases apiNext_step hnext with
  | startJoiningAgain hawake | startJoiningOver hawake | exitOver hawake | exitAgain hawake
  | stopJoiningAgain hawake | stopJoiningOver hawake => simpa [ApiPc.asleep]
  | _ => rfl

section
variable [DecidableEq D] [Double D]

theorem beside_of_step {a : Action D} {l : List (Event D)} (ho : Orderly w)
    (hstep : step config w a = some (w', l)) (ha : a.thread ≠ some t) : Beside w w' t := by
  cases a with
  | tick ticks =>
    cases hstep
    exact beside_of_same rfl (fun _ _ => .inl rfl) id id (by simp [World.elapse])
  | spurious t' =>
    cases hstep
    exact beside_of_same rfl (fun _ _ => .inl rfl) (fun h => (List.mem_filter.mp h).1)
      (fun h => (List.mem_filter.mp h).1) (Nat.le_refl _)
  | call t' call =>
    simp only [step] at hstep
    (repeat' split at hstep) <;> cases hstep
    have hne : t ≠ t' := fun h => ha (h ▸ rfl)
    exact beside_of_same (Function.update_of_ne hne ..) (fun _ _ => .inl rfl) id id (Nat.le_refl _)
  | run k c =>
    obtain ⟨r, hnext, -, rfl, -⟩ := step_run hstep
    have hne : t ≠ .worker k := fun h => ha (h ▸ rfl)
    refine beside_of_same rfl (fun j hj => .inl ?_) (fun h => ?_)
      ((runNext_backoff hnext).1 t hne) (Nat.le_refl _)
    · have hjk : j ≠ k := by
        rintro rfl
        exact hne hj
      exact Function.update_of_ne hjk ..
    · rcases runNext_lifecycleCv hnext with hsame | hnone
      · rw [World.applyRun_impl, hsame] at h
        exact h
      · simp [hnone] at h
  | api t' c =>
    obtain ⟨r, hnext, -, rfl, -⟩ := step_api hstep
    have hne : t ≠ t' := fun h => ha (h ▸ rfl)
    exact beside_of_same (Function.update_of_ne hne ..)
      (fun k _ => ho.applyApi_worker config t' r k) (apiNext_lifecycleCv hnext hne)
      (fun h => (apiNext_firstSampleCv hnext hne h).1) (Nat.le_refl _)

/-- What a thread holds after its own step it held before, or took for the step. -/
theorem holds_of_step {a : Action D} {l : List (Event D)} (ho : Orderly w)
    (hstep : step config w a = some (w', l)) (ha : a.thread = some t) :
    ∀ m ∈ w'.holds t, m ∈ w.holds t ∨ m ∈ w.wants t ∧ m ≠ .transport := by
  intro m hm
  obtain ⟨k, hk, rfl⟩ := List.mem_map.mp hm
  suffices (k ∈ (w.api t).held ∨ k ∈ w.workerHeld t) ∨
      (.member k ∈ (w.api t).wants ∨ .member k ∈ w.workerWants t) from
    this.imp (fun h => List.mem_map_of_mem (List.mem_append.mpr h))
      fun h => ⟨List.mem_append.mpr h, by simp⟩
  cases a with
  | tick | spurious => cases ha
  | call t' call =>
    cases ha
    simp only [step] at hstep
    (repeat' split at hstep) <;> cases hstep
    rcases List.mem_append.mp hk with hk | hk
    · rw [World.enter_api, Function.update_self, Call.entry_held] at hk
      cases hk
    · cases t <;> exact .inl (.inr hk)
  | api t' c =>
    cases ha
    obtain ⟨r, hnext, -, rfl, -⟩ := step_api hstep
    rcases List.mem_append.mp hk with hk | hk
    · rw [World.applyApi_api, Function.update_self] at hk
      rcases apiNext_held hnext k hk with hk | hk
      · exact .inl (.inl hk)
      · exact .inr (.inl (List.mem_append_left _ (List.mem_map_of_mem hk)))
    · cases t with
      | client => cases hk
      | worker n =>
        rcases ho.applyApi_worker config (.worker n) r n with hsame | ⟨-, htop⟩
        · rw [World.workerHeld, hsame] at hk
          exact .inl (.inr hk)
        · simp [World.workerHeld, htop, RunPc.held] at hk
  | run n c =>
    cases ha
    obtain ⟨r, hnext, -, rfl, -⟩ := step_run hstep
    rcases List.mem_append.mp hk with hk | hk
    · exact .inl (.inl hk)
    · rw [World.workerHeld, World.applyRun_workers, Function.update_self] at hk
      rcases runNext_held hnext k hk with hk | hk
      · exact .inl (.inr hk)
      · exact .inr (.inr (List.mem_append_left _ (List.mem_map_of_mem hk)))

theorem awake_of_runNext (hn : Nested w) {r : RunNext D}
    (hnext : runNext config w n c (w.workers n) (w.workers n).pc = some r) :
    w.asleep (.worker n) = false := by
  rw [World.asleep, hn.idle_of_runNext hnext, World.workerAsleep]
  cases hp : (w.workers n).pc with
  | backoffAsleep deadline =>
    rw [hp] at hnext
    simp only [runNext] at hnext
    split at hnext
    · cases hnext
    · rename_i hwake
      simpa [ApiPc.asleep, RunPc.asleep] using hwake
  | _ => rfl

theorem awake_of_step {a : Action D} {l : List (Event D)} (ho : Orderly w)
    (hstep : step config w a = some (w', l)) (ha : a.thread = some t) : w.asleep t = false := by
  cases a with
  | tick | spurious => cases ha
  | call t' call =>
    cases ha
    simp only [step] at hstep
    (repeat' split at hstep) <;> cases hstep
    rename_i hidle hmay
    rw [World.asleep, hidle]
    cases t with
    | client => rfl
    | worker n => exact (workerWants_of_inCallback hmay).2
  | api t' c =>
    cases ha
    obtain ⟨r, hnext, -⟩ := step_api hstep
    exact awake_of_apiNext ho.nested hnext
  | run n c =>
    cases ha
    obtain ⟨r, hnext, -⟩ := step_run hstep
    exact awake_of_runNext ho.nested hnext

end

/-! ## Owners -/

namespace Contended

variable {s s' : Contended D}

/-- What is owned is held, or was taken for the next step, in order. -/
structure Consistent (s : Contended D) : Prop where
  held : ∀ t, ∀ m ∈ s.world.holds t, s.owner m = some t
  owned : ∀ t m, s.owner m = some t →
    m ∈ s.world.holds t ∨ m ∈ s.wants t ∧ s.world.asleep t = false
  ordered : ∀ t m m', s.owner m' = some t → m' ∈ s.wants t → m ∈ s.wants t → m.rank < m'.rank →
    s.owner m = some t
  probing : ∀ t, s.probing t = true → s.world.api t = .idle ∧ s.world.mayCall t = true

theorem consistent_initial (clock : TimePoint) : Consistent (initial clock : Contended D) where
  held t := by cases t <;> simp [initial, World.holds, World.initial, World.workerHeld,
    ApiPc.held, RunPc.held]
  owned t m h := by cases h
  ordered t m m' h := by cases h
  probing t h := by cases h

/-- A probe takes one lock, and what it began with was nothing. -/
theorem Consistent.wants_sorted (h : s.Consistent) (hn : Nested s.world) (t : Tid) :
    (s.world.holds t ++ s.wants t).Pairwise (Lock.rank · < Lock.rank ·) := by
  unfold wants
  split
  · obtain ⟨hidle, hmay⟩ := h.probing t ‹_›
    rw [holds_of_mayCall hidle hmay]
    simp
  · exact hn.locks_sorted t

theorem wanted_some (h : s.wanted t = some m) : s.world.asleep t = false ∧ m ∈ s.wants t ∧
    s.owner m ≠ some t ∧ s.world.spares t m = false := by
  unfold wanted at h
  split at h
  · cases h
  · have hm := List.find?_some h
    simp only [ne_eq, Bool.and_eq_true, decide_eq_true_eq, Bool.not_eq_true'] at hm
    exact ⟨eq_false_of_ne_true ‹_›, List.mem_of_find?_eq_some h, hm⟩

/-- What comes before the next lock in the order is owned already. -/
theorem Consistent.wanted_before (h : s.Consistent) (hn : Nested s.world)
    (hm : s.wanted t = some m) (hm' : m' ∈ s.wants t) (hlt : m'.rank < m.rank) :
    s.owner m' = some t := by
  have hsorted := (List.pairwise_append.mp (h.wants_sorted hn t)).2.1
  unfold wanted at hm
  split at hm
  · cases hm
  · obtain ⟨-, before, after, heq, hbefore⟩ := List.find?_eq_some_iff_append.mp hm
    rw [heq] at hm' hsorted
    rcases List.mem_append.mp hm' with hmem | hmem
    · have htest := hbefore m' hmem
      simp only [ne_eq, Bool.not_eq_true', Bool.and_eq_false_iff, decide_eq_false_iff_not,
        not_not, Bool.not_eq_false'] at htest
      rcases htest with howner | hspares
      · exact howner
      · -- only the last lock in the order is spared
        simp only [World.spares, Bool.and_eq_true, decide_eq_true_eq] at hspares
        rw [hspares.1.1] at hlt
        cases m with
        | transport => exact absurd hlt (Nat.lt_irrefl _)
        | member k => cases k <;> simp [Lock.rank] at hlt
    · rcases List.mem_cons.mp hmem with rfl | hmem
      · exact absurd hlt (Nat.lt_irrefl _)
      · have hafter := (List.pairwise_append.mp hsorted).2.1
        have := (List.pairwise_cons.mp hafter).1 m' hmem
        omega

theorem ready_iff : s.ready t = true ↔ s.probing t = false ∧ s.wanted t = none := by
  simp [ready]

/-- A thread that is ready owns all that its step takes, but for what it is spared. -/
theorem ready_owns (h : s.ready t = true) (hawake : s.world.asleep t = false)
    (hm : m ∈ s.world.wants t) (hspares : s.world.spares t m = false) : s.owner m = some t := by
  obtain ⟨hprobing, hwanted⟩ := ready_iff.mp h
  simp only [wanted, hawake, Bool.false_eq_true, if_false, wants, hprobing] at hwanted
  have hnone := List.find?_eq_none.mp hwanted m hm
  simpa [hspares] using hnone

theorem settle_self : (s.settle t w').owner m = some t ↔ m ∈ w'.holds t := by
  simp only [settle]
  split
  · simp_all
  · split <;> simp_all

theorem settle_other (hne : t' ≠ t) (hholds : ∀ m ∈ w'.holds t, s.owner m = some t) :
    (s.settle t w').owner m = some t' ↔ s.owner m = some t' := by
  have hm := hholds m
  simp only [settle]
  split
  · have howner := hm ‹_›
    simp [howner]
  · split
    · simp_all
      exact Ne.symm hne
    · rfl

theorem Consistent.take (h : s.Consistent) (hn : Nested s.world) (hm : s.wanted t = some m)
    (hfree : s.owner m = none) :
    Consistent { s with owner := Function.update s.owner m (some t) } := by
  obtain ⟨hawake, hwants, -, -⟩ := wanted_some hm
  have hkeep : ∀ {m' t'}, s.owner m' = some t' →
      Function.update s.owner m (some t) m' = some t' := fun {m' t'} hm' => by
    have hne : m' ≠ m := by
      rintro rfl
      simp [hfree] at hm'
    rwa [Function.update_of_ne hne]
  refine ⟨fun t' m' hm' => hkeep (h.held t' m' hm'), fun t' m' hm' => ?_,
    fun t' m₁ m₂ hm₂ hw₂ hw₁ hlt => ?_, h.probing⟩
  · replace hm' : Function.update s.owner m (some t) m' = some t' := hm'
    by_cases hmm : m' = m
    · rw [hmm, Function.update_self] at hm'
      obtain rfl := Option.some.inj hm'
      exact .inr ⟨hmm ▸ hwants, hawake⟩
    · rw [Function.update_of_ne hmm] at hm'
      exact h.owned t' m' hm'
  · replace hm₂ : Function.update s.owner m (some t) m₂ = some t' := hm₂
    by_cases hmm : m₂ = m
    · rw [hmm, Function.update_self] at hm₂
      obtain rfl := Option.some.inj hm₂
      exact hkeep (h.wanted_before hn hm hw₁ (hmm ▸ hlt))
    · rw [Function.update_of_ne hmm] at hm₂
      exact hkeep (h.ordered t' m₁ m₂ hm₂ hw₂ hw₁ hlt)

theorem wants_of_mayCall (hidle : w.api t = .idle) (hmay : w.mayCall t = true) :
    w.wants t = [] := by
  rw [World.wants_idle hidle]
  cases t with
  | client => rfl
  | worker n => exact (workerWants_of_inCallback hmay).1

theorem Consistent.probe (h : s.Consistent) (hprobing : s.probing t = false)
    (hidle : s.world.api t = .idle) (hmay : s.world.mayCall t = true) :
    Consistent { s with probing := Function.update s.probing t true } := by
  have hnothing : ∀ m, s.owner m ≠ some t := fun m hm => by
    rcases h.owned t m hm with hm | ⟨hm, -⟩
    · simp [holds_of_mayCall hidle hmay] at hm
    · simp [wants, hprobing, wants_of_mayCall hidle hmay] at hm
  refine ⟨h.held, fun t' m' hm' => ?_, fun t' m₁ m₂ hm₂ hw₂ hw₁ hlt => ?_, fun t' ht' => ?_⟩
  · have hne : t' ≠ t := by
      rintro rfl
      exact hnothing m' hm'
    simpa only [wants, Function.update_of_ne hne] using h.owned t' m' hm'
  · have hne : t' ≠ t := by
      rintro rfl
      exact hnothing m₂ hm₂
    simp only [wants, Function.update_of_ne hne] at hw₁ hw₂
    exact h.ordered t' m₁ m₂ hm₂ hw₂ hw₁ hlt
  · by_cases hne : t' = t
    · subst hne; exact ⟨hidle, hmay⟩
    · simp only [Function.update_of_ne hne] at ht'
      exact h.probing t' ht'

theorem Consistent.probed (h : s.Consistent) (hprobing : s.probing t = true)
    (howner : s.owner (.member .lifecycle) = some t) :
    Consistent { s with
      probing := Function.update s.probing t false
      owner := Function.update s.owner (.member .lifecycle) none } := by
  obtain ⟨hidle, hmay⟩ := h.probing t hprobing
  -- it owns nothing else
  have hother : ∀ m t', Function.update s.owner (.member .lifecycle) none m = some t' →
      s.owner m = some t' ∧ t' ≠ t := fun m t' hm => by
    have hne : m ≠ .member .lifecycle := by
      rintro rfl
      simp at hm
    rw [Function.update_of_ne hne] at hm
    refine ⟨hm, ?_⟩
    rintro rfl
    rcases h.owned t' m hm with hheld | ⟨hwants, -⟩
    · simp [holds_of_mayCall hidle hmay] at hheld
    · simp [wants, hprobing] at hwants
      exact hne hwants
  refine ⟨fun t' m hm => ?_, fun t' m hm => ?_, fun t' m₁ m₂ hm₂ hw₂ hw₁ hlt => ?_,
    fun t' ht' => ?_⟩
  · have hheld := h.held t' m hm
    have hne : m ≠ .member .lifecycle := by
      rintro rfl
      obtain rfl := Option.some.inj (howner.symm.trans hheld)
      simp [holds_of_mayCall hidle hmay] at hm
    exact (Function.update_of_ne hne ..).trans hheld
  · obtain ⟨hm, hne⟩ := hother m t' hm
    simpa only [wants, Function.update_of_ne hne] using h.owned t' m hm
  · obtain ⟨hm₂, hne⟩ := hother m₂ t' hm₂
    simp only [wants, Function.update_of_ne hne] at hw₁ hw₂
    have hbelow := h.ordered t' m₁ m₂ hm₂ hw₂ hw₁ hlt
    have hne' : m₁ ≠ .member .lifecycle := by
      rintro rfl
      exact hne (Option.some.inj (hbelow.symm.trans howner))
    exact (Function.update_of_ne hne' ..).trans hbelow
  · by_cases hne : t' = t
    · subst hne
      simp at ht'
    · simp only [Function.update_of_ne hne] at ht'
      exact h.probing t' ht'

section
variable [DecidableEq D] [Double D] {l : List (Event D)}

/-- A step of nobody, or of a thread that owns what the step takes. -/
theorem Consistent.act (h : s.Consistent) (ho : Orderly s.world) {a : Action D}
    (hstep : Client.step config s.world a = some (w', l)) :
    (a.thread = none → Consistent { s with world := w' }) ∧
      ∀ t, a.thread = some t → s.ready t = true → Consistent (s.settle t w') := by
  have hwants : ∀ {t'} (owner : Lock → Option Tid), Beside s.world w' t' →
      wants { s with world := w', owner } t' = s.wants t' := fun {t'} owner hb => by
    simp only [wants, hb.wants]
  refine ⟨fun ha => ?_, fun t ha hready => ?_⟩
  · have hb : ∀ t', Beside s.world w' t' := fun t' => beside_of_step ho hstep (by simp [ha])
    refine ⟨fun t' m hm => h.held t' m ((hb t').holds ▸ hm), fun t' m hm => ?_,
      fun t' m₁ m₂ hm₂ hw₂ hw₁ => ?_, fun t' ht' => ?_⟩
    · rw [hwants _ (hb t'), (hb t').holds]
      exact (h.owned t' m hm).imp id fun hm => ⟨hm.1, (hb t').awake hm.2⟩
    · rw [hwants _ (hb t')] at hw₁ hw₂
      exact h.ordered t' m₁ m₂ hm₂ hw₂ hw₁
    · obtain ⟨hidle, hmay⟩ := h.probing t' ht'
      exact ⟨(hb t').api.trans hidle, (hb t').mayCall hmay⟩
  · have hb : ∀ t', t' ≠ t → Beside s.world w' t' := fun t' hne =>
      beside_of_step ho hstep (by rw [ha]; exact fun h => hne (Option.some.inj h).symm)
    have hawake := awake_of_step ho hstep ha
    have hholds : ∀ m ∈ w'.holds t, s.owner m = some t := fun m hm => by
      rcases holds_of_step ho hstep ha m hm with hm | ⟨hm, htransport⟩
      · exact h.held t m hm
      · exact ready_owns hready hawake hm (by simp [World.spares, htransport])
    have hprobing := (ready_iff.mp hready).1
    refine ⟨fun t' m hm => ?_, fun t' m hm => ?_, fun t' m₁ m₂ hm₂ hw₂ hw₁ hlt => ?_,
      fun t' ht' => ?_⟩
    · by_cases hne : t' = t
      · subst hne; exact settle_self.mpr hm
      · exact (settle_other hne hholds).mpr (h.held t' m ((hb t' hne).holds ▸ hm))
    · by_cases hne : t' = t
      · subst hne; exact .inl (settle_self.mp hm)
      · have hm := (settle_other hne hholds).mp hm
        rw [settle, hwants _ (hb t' hne), (hb t' hne).holds]
        exact (h.owned t' m hm).imp id fun hm => ⟨hm.1, (hb t' hne).awake hm.2⟩
    · by_cases hne : t' = t
      · -- what it holds is not among what it takes next
        subst hne
        have hsorted := (ho.nested.move (moved_of_step hstep)).locks_sorted t'
        simp only [settle, wants, hprobing, Bool.false_eq_true, if_false] at hw₂
        have hlt' := (List.pairwise_append.mp hsorted).2.2 m₂ (settle_self.mp hm₂) m₂ hw₂
        exact absurd hlt' (Nat.lt_irrefl _)
      · rw [settle, hwants _ (hb t' hne)] at hw₁ hw₂
        exact (settle_other hne hholds).mpr
          (h.ordered t' m₁ m₂ ((settle_other hne hholds).mp hm₂) hw₂ hw₁ hlt)
    · have hne : t' ≠ t := by
        rintro rfl
        simp [settle, hprobing] at ht'
      obtain ⟨hidle, hmay⟩ := h.probing t' ht'
      exact ⟨(hb t' hne).api.trans hidle, (hb t' hne).mayCall hmay⟩

/-- Without its locks a run is a run of the client. -/
theorem step_erase {a : Move D} (h : step config s a = some (s', l)) :
    s'.world = s.world ∧ l = [] ∨ ∃ b, Client.step config s.world b = some (s'.world, l) := by
  cases a with
  | take t | probe t | probed t =>
    simp only [step] at h
    (repeat' split at h) <;> cases h
    exact .inl ⟨rfl, rfl⟩
  | act a =>
    simp only [step] at h
    (repeat' split at h) <;> cases h <;> exact .inr ⟨a, ‹_›⟩

theorem run_erase (h : (contendedMachine config).Run s l s') :
    (machine config).Run s.world l s'.world := by
  induction h with
  | refl => exact .refl
  | tail _ hstep ih =>
    rcases step_erase hstep with ⟨hsame, rfl⟩ | ⟨b, hb⟩
    · rw [hsame, List.append_nil]; exact ih
    · exact ih.tail hb

theorem Consistent.step (h : s.Consistent) (ho : Orderly s.world) {a : Move D}
    (hstep : Contended.step config s a = some (s', l)) : s'.Consistent := by
  cases a with
  | take t =>
    simp only [Contended.step] at hstep
    (repeat' split at hstep) <;> cases hstep
    exact h.take ho.nested ‹_› ‹_›
  | probe t =>
    simp only [Contended.step] at hstep
    split at hstep <;> cases hstep
    rename_i htest
    simp only [Bool.and_eq_true, Bool.not_eq_true'] at htest
    exact h.probe htest.1.1 (isIdle_iff.mp htest.1.2) htest.2
  | probed t =>
    simp only [Contended.step] at hstep
    split at hstep <;> cases hstep
    rename_i htest
    simp only [Bool.and_eq_true, decide_eq_true_eq] at htest
    exact h.probed htest.1 htest.2
  | act a =>
    simp only [Contended.step] at hstep
    split at hstep
    · cases hstep
    rename_i hact
    obtain ⟨hnone, hsome⟩ := h.act ho hact
    split at hstep
    · cases hstep
      exact hnone ‹_›
    · split at hstep <;> cases hstep
      exact hsome _ ‹_› ‹_›

theorem consistent_of_run {clock : TimePoint}
    (h : (contendedMachine config).Run (initial clock) l s) :
    s.Consistent ∧ Reachable config s.world l := by
  refine ⟨h.invariant (I := fun s _ => s.Consistent) (consistent_initial clock)
    fun hrun hi hstep => ?_, clock, run_erase h⟩
  have hv : Reachable config _ _ := ⟨clock, run_erase hrun⟩
  exact hi.step hv.orderly hstep

end

/-! ## Who waits for whom -/

end Contended

/-- Waiting for `joining_` to become false. -/
def ApiPc.awaitsJoining : ApiPc D → Bool
  | .start _ .joiningAsleep | .stop .joiningAsleep => true
  | _ => false

/-- Before that wait, in it, or in a join. -/
def ApiPc.parks : ApiPc D → Bool
  | .start _ .joiningBlock | .start _ .joiningAsleep | .start _ (.join _) | .stop .joiningBlock
  | .stop .joiningAsleep | .stop (.join _) => true
  | _ => false

/-- Threads that wait for `joining_` come before the thread that joins, and that before all
others. -/
def ApiPc.stage : ApiPc D → Nat
  | .start _ .joiningAsleep | .stop .joiningAsleep => 0
  | .start _ (.join _) | .stop (.join _) => 1
  | _ => 2

namespace Contended

variable {s : Contended D}

/-- The waits that are not for a lock: for a worker to end, and for the thread that set `joining_`
to clear it. -/
inductive Awaits (s : Contended D) (a : Tid) : Tid → Prop
  | worker {k : Nat} (hrole : (s.world.api a).role = .joining k) : Awaits s a (.worker k)
  | joiner {b : Tid} {k : Nat} (hawaits : (s.world.api a).awaitsJoining = true)
    (hasleep : a ∈ s.world.impl.lifecycleCv) (hjoining : s.world.impl.joining = true)
    (hjoins : (s.world.api b).role.joins = some k) : Awaits s a b

/-- Who owns which mutex, and who waits for what. -/
def contention (s : Contended D) : Contention Tid Lock where
  owner := s.owner
  wanted := s.wanted
  awaits := s.Awaits

theorem stage_of_joining {p : ApiPc D} (h : p.role = .joining n) :
    p.stage = 1 ∧ p.held = [] ∧ p.wants = [] := by
  cases p with
  | start callback q =>
    cases q with
    | rollback q => cases q <;> cases h
    | join k => exact ⟨rfl, rfl, rfl⟩
    | _ => cases h
  | stop q => cases q <;> first | exact ⟨rfl, rfl, rfl⟩ | cases h
  | _ => cases h

theorem stage_of_awaiting {p : ApiPc D} (h : p.awaitsJoining = true) :
    p.stage = 0 ∧ p.held = [] := by
  cases p with
  | start callback q => cases q <;> first | exact ⟨rfl, rfl⟩ | cases h
  | stop q => cases q <;> first | exact ⟨rfl, rfl⟩ | cases h
  | _ => cases h

theorem asleep_of_awaiting (h : (w.api t).awaitsJoining = true)
    (hmem : t ∈ w.impl.lifecycleCv) : w.asleep t = true := by
  suffices (w.api t).asleep w.impl t = true by simp [World.asleep, this]
  cases hp : w.api t with
  | start callback q =>
    rw [hp] at h
    cases q <;> first | simpa [ApiPc.asleep] using hmem | cases h
  | stop q =>
    rw [hp] at h
    cases q <;> first | simpa [ApiPc.asleep] using hmem | cases h
  | _ => rw [hp] at h; cases h

theorem stage_of_joins {p : ApiPc D} (h : p.role.joins = some n) : 0 < p.stage := by
  cases p with
  | start callback q => cases q <;> first | exact Nat.one_pos | exact Nat.two_pos | cases h
  | stop q => cases q <;> first | exact Nat.one_pos | exact Nat.two_pos | cases h
  | _ => cases h

theorem stage_of_free {p : ApiPc D} (h : p.role = .free) : p.stage = 2 ∧ p.parks = false := by
  cases p with
  | start callback q => cases q <;> first | exact ⟨rfl, rfl⟩ | cases h
  | stop q => cases q <;> first | exact ⟨rfl, rfl⟩ | cases h
  | _ => exact ⟨rfl, rfl⟩

theorem Consistent.ranked (h : s.Consistent) (ho : Orderly s.world) :
    s.contention.Ranked Lock.rank fun t => (s.world.api t).stage := by
  refine ⟨fun t m m' hm hm' => ?_, fun t t' hawaits => ?_, fun t t' hawaits => ?_⟩
  · obtain ⟨-, hwants, hnot, -⟩ := wanted_some hm
    have hsorted := h.wants_sorted ho.nested t
    rcases h.owned t m' hm' with hheld | ⟨hwants', -⟩
    · exact (List.pairwise_append.mp hsorted).2.2 m' hheld m hwants
    · rcases Nat.lt_trichotomy m'.rank m.rank with hlt | heq | hgt
      · exact hlt
      · exact absurd (Lock.rank_injective heq ▸ hm') hnot
      · exact absurd (h.ordered t m m' hm' hwants' hwants hgt) hnot
  · cases hawaits with
    | @worker k hrole =>
      rw [(stage_of_joining hrole).1, (stage_of_free (ho.life.nested k)).1]
      exact Nat.one_lt_two
    | joiner hawaits hasleep hjoining hjoins =>
      rw [(stage_of_awaiting hawaits).1]
      exact stage_of_joins hjoins
  · cases hawaits with
    | worker hrole =>
      obtain ⟨-, hheld, hnone⟩ := stage_of_joining hrole
      have hne : s.world.api t ≠ .idle := fun hidle => by simp [hidle, ApiPc.role] at hrole
      have hprobing : s.probing t = false := eq_false_of_ne_true fun hp => hne (h.probing t hp).1
      have hwants : s.wants t = [] := by
        simp [wants, hprobing, World.wants, hnone, ho.nested.workerWants hne]
      refine ⟨by simp [contention, wanted, hwants], fun m hm => ?_⟩
      rcases h.owned t m hm with hm | ⟨hm, -⟩
      · simp [World.holds, hheld, ho.nested.workerHeld hne] at hm
      · simp [hwants] at hm
    | joiner hawaits hasleep hjoining hjoins =>
      obtain ⟨-, hheld⟩ := stage_of_awaiting hawaits
      have hne : s.world.api t ≠ .idle := fun hidle => by
        simp [hidle, ApiPc.awaitsJoining] at hawaits
      have hsleeps := asleep_of_awaiting hawaits hasleep
      refine ⟨by simp [contention, wanted, hsleeps], fun m hm => ?_⟩
      rcases h.owned t m hm with hm | ⟨-, hawake⟩
      · simp [World.holds, hheld, ho.nested.workerHeld hne] at hm
      · rw [hsleeps] at hawake
        cases hawake

/-- A callback is recognised by whoever holds the lifecycle mutex. -/
theorem isActiveWorker_of_alone (ho : Orderly w) (hne : w.api (.worker n) ≠ .idle)
    (halone : w.life.Alone (.worker n)) : w.impl.isActiveWorker (.worker n) = true := by
  by_contra hself
  exact ho.life.not_worker (ho.nested.passes hne (eq_false_of_ne_true hself)) halone rfl

/-- A callback holds no lock. -/
theorem Consistent.callback_free (h : s.Consistent) (hcallback : s.world.inCallback n = true)
    (hidle : s.world.api (.worker n) = .idle) (hprobing : s.probing (.worker n) = false)
    (m : Lock) : s.owner m ≠ some (.worker n) := by
  intro hm
  have hmay : s.world.mayCall (.worker n) = true := hcallback
  rcases h.owned _ m hm with hm | ⟨hm, -⟩
  · simp [holds_of_mayCall hidle hmay] at hm
  · simp [wants, hprobing, wants_of_mayCall hidle hmay] at hm

section
variable [DecidableEq D] [Double D] {l : List (Event D)}

theorem callback_start (ho : Orderly w) {callback : Option Nat}
    (hpc : w.api (.worker n) = .start callback .lock)
    (hstep : Client.step config w (.api (.worker n) c) = some (w', l)) :
    w'.api (.worker n) = .idle ∧
      l = [.threw (.worker n) (.start callback) "client is already running"] := by
  obtain ⟨r, hnext, htake, rfl, rfl⟩ := step_api hstep
  have hself := isActiveWorker_of_alone ho (by rw [hpc]; simp) (ho.locked.alone htake
    (.inr (by simp [hpc, ApiPc.needs, StartPc.needs])))
  rw [hpc] at hnext
  simp only [apiNext, startNext, hself, if_true] at hnext
  cases hnext
  exact ⟨Function.update_self .., rfl⟩

theorem callback_stop (ho : Orderly w) (hpc : w.api (.worker n) = .stop .selfCheck)
    (hstep : Client.step config w (.api (.worker n) c) = some (w', l)) :
    w'.api (.worker n) = .idle ∧ l = [.returned (.worker n) .stop] := by
  obtain ⟨r, hnext, htake, rfl, rfl⟩ := step_api hstep
  have hself := isActiveWorker_of_alone ho (by rw [hpc]; simp) (ho.locked.alone htake
    (.inl (by simp [hpc, ApiPc.held, StopPc.held])))
  rw [hpc] at hnext
  simp only [apiNext, stopNext, stopDecideNext, hself, if_true] at hnext
  cases hnext
  exact ⟨Function.update_self .., rfl⟩

/-- No thread waits for itself through the mutexes, the join and `joining_`. A worker never comes to
the join nor to the wait for `joining_`, since a callback is recognised: its `start` throws and its
`stop` returns. And a callback is executed without a mutex. -/
theorem deadlock_free {clock : TimePoint}
    (h : (contendedMachine config).Run (initial clock) l s) :
    Acyclic s.contention.WaitsFor ∧
    (∀ n, (s.world.api (.worker n)).parks = false) ∧
    (∀ n callback c w' l', s.world.api (.worker n) = .start callback .lock →
      Client.step config s.world (.api (.worker n) c) = some (w', l') →
        w'.api (.worker n) = .idle ∧
          l' = [.threw (.worker n) (.start callback) "client is already running"]) ∧
    (∀ n c w' l', s.world.api (.worker n) = .stop .selfCheck →
      Client.step config s.world (.api (.worker n) c) = some (w', l') →
        w'.api (.worker n) = .idle ∧ l' = [.returned (.worker n) .stop]) ∧
    ∀ n, s.world.inCallback n = true → s.world.api (.worker n) = .idle →
      s.probing (.worker n) = false → ∀ m, s.owner m ≠ some (.worker n) := by
  obtain ⟨hi, hv⟩ := consistent_of_run h
  have ho := hv.orderly
  exact ⟨(hi.ranked ho).acyclic, fun n => (stage_of_free (ho.life.nested n)).2,
    fun n callback c w' l' hpc hstep => callback_start ho hpc hstep,
    fun n c w' l' hpc hstep => callback_stop ho hpc hstep, fun n => hi.callback_free⟩

end

/-- One thread is in the first section of `stop`, and another enters `start`. -/
def contendedStart : Contended Rat × List (Event Rat) :=
  (contendedMachine (demoConfig .failStop)).perform (initial 1)
    [.act (.call (.client 0) .stop), .take (.client 0), .act (.api (.client 0) .go),
      .act (.call (.client 1) (.start none))]

theorem deadlock_free_contendedStart :
    contendedStart.1.contention.WaitsFor (.client 1) (.client 0) ∧
      ¬ contendedStart.1.contention.WaitsFor (.client 0) (.client 1) := by
  have h : (contendedMachine (demoConfig .failStop)).Run (initial 1) contendedStart.2
      contendedStart.1 := Machine.run_perform (by decide +kernel)
  have hwaits : contendedStart.1.contention.WaitsFor (.client 1) (.client 0) :=
    .lock (.member .lifecycle) (by decide +kernel) (by decide +kernel)
  exact ⟨hwaits, fun hback => (deadlock_free h).1 _ (.tail (.single hwaits) hback)⟩

end Contended

end NetFT.Client
