import NetFT.Client.Retirement

/-! The destruction of clients (`client.cpp`): any number of clients, the destructor of each, and
the thread that destroys those whose destructor ran in their own callback. The section of the
destroyer under its mutex is one step, but for the wait, before which it holds the mutex; so does a
section of `enqueue`. A program destroys a client while no other thread is inside, except for one
that joins its worker in `stop` and for its callback. -/

namespace NetFT.Client
open Library

variable {D : Type}

/-- The thread of `DeferredDestroyer::run`. It runs no code of the application. -/
def destroyerThread : Tid := .client 0

/-- `~Client`, on a thread. -/
inductive DestructorPc
  | unborn
  /-- `called_from_worker_thread` -/
  | check (t : Tid)
  /-- `impl_->stop()` in the callback, then `pending_.push_back` -/
  | stopCallback (t : Tid)
  | notify (t : Tid)
  | stop (t : Tid)
  /-- `stop()` in `~Impl` -/
  | implStop (t : Tid)
  | returned
  deriving DecidableEq, Repr

def DestructorPc.thread : DestructorPc → Option Tid
  | .check t | .stopCallback t | .notify t | .stop t | .implStop t => some t
  | .unborn | .returned => none

def Tid.isWorker : Tid → Bool
  | .worker _ => true
  | .client _ => false

/-- The destructor is executed, but not in the callback. -/
def DestructorPc.outsideCallback (p : DestructorPc) : Bool :=
  p.thread.any (!·.isWorker)

/-- `DeferredDestroyer::run` -/
inductive DestroyerPc
  | take
  /-- Between the evaluation of `!pending_.empty()` and the wait for it. -/
  | block
  | asleep
  | stop (k : Nat)
  | implStop (k : Nat)
  deriving DecidableEq, Repr

/-- The client that the destroyer has in hand. -/
def DestroyerPc.value : DestroyerPc → Option Nat
  | .stop k | .implStop k => some k
  | _ => none

structure Fleet (D : Type) where
  world : Nat → World D
  /-- The threads that have called a client. -/
  users : Nat → List Tid := fun _ => []
  destructor : Nat → DestructorPc := fun _ => .unborn
  /-- The memory of the client is released. -/
  freed : Nat → Bool := fun _ => false
  pending : List Nat := []
  destroyer : DestroyerPc := .take
  /-- The destroyer is enqueued on its condition variable. -/
  sleeping : Bool := false

inductive FleetEvent (D : Type)
  | client (k : Nat) (e : Event D)
  | enqueued (k : Nat)
  | freed (k : Nat) (t : Tid)
  deriving DecidableEq

inductive FleetAction (D : Type)
  /-- A step of a client, of the threads inside it or of its environment. -/
  | client (k : Nat) (a : Action D)
  /-- A thread begins the destruction of a client. -/
  | destroy (k : Nat) (t : Tid)
  | destructor (k : Nat)
  | destroyer
  | spurious

namespace Fleet

def initial (clock : TimePoint) : Fleet D where
  world _ := World.initial clock

/-! ## What a program may do -/

def isStart : Call → Bool
  | .start _ => true
  | _ => false

/-- What a thread may be doing inside a client whose destruction begins. -/
def mayStay (w : World D) (t : Tid) : Bool :=
  match w.api t with
  | .idle | .stop (.join _) => true
  | .start .. => false
  | _ => t.isWorker

/-- Until its destruction a client is called by all threads but the destroyer; then only by its
callback, unless the destructor runs in it. A callback goes on when the destructor has returned. -/
def permits (s : Fleet D) (k : Nat) (a : Action D) : Bool :=
  !s.freed k &&
    match a with
    | .call t c =>
      if s.destructor k = .unborn then t ≠ destroyerThread
      else t.isWorker && !isStart c && (s.destructor k).outsideCallback
    | .run n _ => (s.destructor k).thread ≠ some (.worker n)
    | _ => true

def mayDestroy (s : Fleet D) (k : Nat) (t : Tid) : Bool :=
  s.destructor k = .unborn && t ≠ destroyerThread && ((s.world k).api t).isIdle &&
    (s.world k).mayCall t && (s.users k).all (mayStay (s.world k))

/-! ## Steps -/

variable [DecidableEq D] [Double D]

/-- Client `k` makes a step, the rest of the fleet is as in `next`. -/
def within (config : Nat → Config D) (s : Fleet D) (k : Nat) (a : Action D) (next : Fleet D) :
    Option (Fleet D × List (FleetEvent D)) :=
  match step (config k) (s.world k) a with
  | none => none
  | some (w, l) => some ({ next with world := Function.update s.world k w }, l.map (.client k))

def setDestructor (s : Fleet D) (k : Nat) (p : DestructorPc) : Fleet D :=
  { s with destructor := Function.update s.destructor k p }

def use (s : Fleet D) (k : Nat) : Action D → Fleet D
  | .call t _ => { s with users := Function.update s.users k (t :: s.users k) }
  | _ => s

/-- `stop` has returned on `t`. -/
def stopped (s : Fleet D) (k : Nat) (t : Tid) : Bool := ((s.world k).api t).isIdle

def free (s : Fleet D) (k : Nat) : Fleet D :=
  { s with freed := Function.update s.freed k true }

def destructorNext (config : Nat → Config D) (s : Fleet D) (k : Nat) :
    DestructorPc → Option (Fleet D × List (FleetEvent D))
  | .check t =>
    if (s.world k).locks .lifecycle = none then
      s.within config k (.call t .stop) (s.setDestructor k
        (if (s.world k).impl.isActiveWorker t then .stopCallback t else .stop t))
    else none
  | .stopCallback t =>
    if s.stopped k t ∧ s.destroyer ≠ .block then
      some ({ s.setDestructor k (.notify t) with pending := s.pending ++ [k] }, [.enqueued k])
    else none
  | .notify _ => some ({ s.setDestructor k .returned with sleeping := false }, [])
  | .stop t =>
    if s.stopped k t then s.within config k (.call t .stop) (s.setDestructor k (.implStop t))
    else none
  | .implStop t =>
    if s.stopped k t then some ((s.setDestructor k .returned).free k, [.freed k t]) else none
  | .unborn | .returned => none

def destroyerNext (config : Nat → Config D) (s : Fleet D) :
    DestroyerPc → Option (Fleet D × List (FleetEvent D))
  | .take =>
    match s.pending with
    | [] => some ({ s with destroyer := .block }, [])
    | k :: rest =>
      s.within config k (.call destroyerThread .stop)
        { s with pending := rest, destroyer := .stop k }
  | .block => some ({ s with destroyer := .asleep, sleeping := true }, [])
  | .asleep => if s.sleeping then none else some ({ s with destroyer := .take }, [])
  | .stop k =>
    if s.stopped k destroyerThread then
      s.within config k (.call destroyerThread .stop) { s with destroyer := .implStop k }
    else none
  | .implStop k =>
    if s.stopped k destroyerThread then
      some ({ s with destroyer := .take }.free k, [.freed k destroyerThread])
    else none

def step (config : Nat → Config D) (s : Fleet D) :
    FleetAction D → Option (Fleet D × List (FleetEvent D))
  | .client k a => if s.permits k a then s.within config k a (s.use k a) else none
  | .destroy k t => if s.mayDestroy k t then some (s.setDestructor k (.check t), []) else none
  | .destructor k => s.destructorNext config k (s.destructor k)
  | .destroyer => s.destroyerNext config s.destroyer
  | .spurious => some ({ s with sleeping := false }, [])

end Fleet

def fleetMachine [DecidableEq D] [Double D] (config : Nat → Config D) :
    Machine (Fleet D) (FleetAction D) (FleetEvent D) where
  step := Fleet.step config

/-! ## Histories -/

def FleetEvent.ofClient (k : Nat) : FleetEvent D → Option (Event D)
  | .client j e => if j = k then some e else none
  | _ => none

/-- The history of one client. -/
def clientEvents (k : Nat) (l : List (FleetEvent D)) : List (Event D) :=
  l.filterMap (FleetEvent.ofClient k)

def FleetEvent.enqueuedClient : FleetEvent D → Option Nat
  | .enqueued k => some k
  | _ => none

/-- The clients that were handed to the destroyer, in order. -/
def enqueuedClients (l : List (FleetEvent D)) : List Nat := l.filterMap FleetEvent.enqueuedClient

def FleetEvent.reclaimedClient : FleetEvent D → Option Nat
  | .freed k t => if t = destroyerThread then some k else none
  | _ => none

/-- The clients that the destroyer has freed, in order. -/
def reclaimedClients (l : List (FleetEvent D)) : List Nat := l.filterMap FleetEvent.reclaimedClient

def FleetEvent.freedClient : FleetEvent D → Option Nat
  | .freed k _ => some k
  | _ => none

def freedClients (l : List (FleetEvent D)) : List Nat := l.filterMap FleetEvent.freedClient

theorem clientEvents_append (k : Nat) (l l' : List (FleetEvent D)) :
    clientEvents k (l ++ l') = clientEvents k l ++ clientEvents k l' := List.filterMap_append

theorem clientEvents_map_self (k : Nat) (l : List (Event D)) :
    clientEvents k (l.map (.client k)) = l := by
  simp [clientEvents, FleetEvent.ofClient, List.filterMap_map, Function.comp_def]

theorem clientEvents_map_of_ne {j k : Nat} (h : j ≠ k) (l : List (Event D)) :
    clientEvents k (l.map (.client j)) = [] := by
  simp [clientEvents, FleetEvent.ofClient, List.filterMap_map, Function.comp_def, h]

theorem filterMap_concat {α β : Type} (f : α → Option β) (l : List α) (a : α) :
    (l ++ [a]).filterMap f = l.filterMap f ++ (f a).toList := by
  cases h : f a <;> simp [h]

section
variable (l : List (FleetEvent D)) (e : FleetEvent D)

@[simp] theorem enqueuedClients_concat :
    enqueuedClients (l ++ [e]) = enqueuedClients l ++ e.enqueuedClient.toList :=
  filterMap_concat _ l e

@[simp] theorem reclaimedClients_concat :
    reclaimedClients (l ++ [e]) = reclaimedClients l ++ e.reclaimedClient.toList :=
  filterMap_concat _ l e

@[simp] theorem freedClients_concat :
    freedClients (l ++ [e]) = freedClients l ++ e.freedClient.toList :=
  filterMap_concat _ l e

end

@[simp] theorem enqueuedClients_client {j : Nat} (l : List (FleetEvent D))
    (events : List (Event D)) :
    enqueuedClients (l ++ events.map (.client j)) = enqueuedClients l := by
  simp [enqueuedClients, List.filterMap_map, FleetEvent.enqueuedClient, Function.comp_def]

@[simp] theorem reclaimedClients_client {j : Nat} (l : List (FleetEvent D))
    (events : List (Event D)) :
    reclaimedClients (l ++ events.map (.client j)) = reclaimedClients l := by
  simp [reclaimedClients, List.filterMap_map, FleetEvent.reclaimedClient, Function.comp_def]

@[simp] theorem freedClients_client {j : Nat} (l : List (FleetEvent D)) (events : List (Event D)) :
    freedClients (l ++ events.map (.client j)) = freedClients l := by
  simp [freedClients, List.filterMap_map, FleetEvent.freedClient, Function.comp_def]

/-! ## Where a client is -/

/-- The destroyer does not know the client. -/
def Fleet.apart (s : Fleet D) (k : Nat) : Prop := k ∉ s.pending ∧ s.destroyer.value ≠ some k

/-- The destructor has handed the client over. -/
def Fleet.deferred (s : Fleet D) (k : Nat) : Prop :=
  (∃ n, s.destructor k = .notify (.worker n)) ∨ s.destructor k = .returned

/-- The stations of a client, and what is known of it there. -/
inductive Placed (s : Fleet D) (l : List (FleetEvent D)) (k : Nat) : Prop
  | owned (hpc : s.destructor k = .unborn) (hfreed : s.freed k = false) (hapart : s.apart k)
    (husers : ∀ t, (s.world k).api t ≠ .idle → t ∈ s.users k)
  | checked (t : Tid) (hne : t ≠ destroyerThread) (hpc : s.destructor k = .check t)
    (hfreed : s.freed k = false) (hapart : s.apart k) (hidle : (s.world k).api t = .idle)
    (hmay : (s.world k).mayCall t = true)
    (hdeserted : Deserted (s.world k) t)
  | deferring (n : Nat) (hpc : s.destructor k = .stopCallback (.worker n))
    (hfreed : s.freed k = false)
    (hapart : s.apart k) (hdeserted : Deserted (s.world k) (.worker n))
  | stopping (m : Nat) (hne : m ≠ 0)
    (hpc : s.destructor k = .stop (.client m) ∨ s.destructor k = .implStop (.client m))
    (hfreed : s.freed k = false) (hapart : s.apart k) (hretiring : Retiring (s.world k) m)
  | pending (hdeferred : s.deferred k) (hfreed : s.freed k = false) (hpending : k ∈ s.pending)
    (hvalue : s.destroyer.value ≠ some k) (hdeserted : Deserted (s.world k) destroyerThread)
  | inHand (hdeferred : s.deferred k) (hfreed : s.freed k = false) (hpending : k ∉ s.pending)
    (hvalue : s.destroyer.value = some k) (hretiring : Retiring (s.world k) 0)
  | gone (hdeferred : s.deferred k) (hfreed : s.freed k = true) (hapart : s.apart k)
    (hvacated : Vacated (s.world k) (clientEvents k l))

variable {config : Nat → Config D} {s s' : Fleet D} {l l' : List (FleetEvent D)} {j k : Nat}

/-- A step that does not concern client `k`. -/
structure Aside (s s' : Fleet D) (l' : List (FleetEvent D)) (k : Nat) : Prop where
  world : s'.world k = s.world k
  users : s'.users k = s.users k
  destructor : s'.destructor k = s.destructor k
  freed : s'.freed k = s.freed k
  pending : k ∈ s'.pending ↔ k ∈ s.pending
  value : s'.destroyer.value = some k ↔ s.destroyer.value = some k
  events : clientEvents k l' = []

theorem Placed.aside (h : Placed s l k) (hs : Aside s s' l' k) : Placed s' (l ++ l') k := by
  have hapart : s.apart k → s'.apart k := fun ha =>
    ⟨fun hp => ha.1 (hs.pending.mp hp), fun hv => ha.2 (hs.value.mp hv)⟩
  have hdeferred : s.deferred k → s'.deferred k := fun hd => by
    unfold Fleet.deferred
    rw [hs.destructor]
    exact hd
  cases h with
  | owned hpc hfreed ha husers =>
    exact .owned (hs.destructor.trans hpc) (hs.freed.trans hfreed) (hapart ha)
      (hs.world ▸ hs.users ▸ husers)
  | checked t hne hpc hfreed ha hidle hmay hdeserted =>
    exact .checked t hne (hs.destructor.trans hpc) (hs.freed.trans hfreed) (hapart ha)
      (hs.world ▸ hidle) (hs.world ▸ hmay) (hs.world ▸ hdeserted)
  | deferring n hpc hfreed ha hdeserted =>
    exact .deferring n (hs.destructor.trans hpc) (hs.freed.trans hfreed) (hapart ha)
      (hs.world ▸ hdeserted)
  | stopping m hne hpc hfreed ha hretiring =>
    exact .stopping m hne (hs.destructor ▸ hpc) (hs.freed.trans hfreed) (hapart ha)
      (hs.world ▸ hretiring)
  | pending hd hfreed hpending hvalue hdeserted =>
    exact .pending (hdeferred hd) (hs.freed.trans hfreed) (hs.pending.mpr hpending)
      (fun hv => hvalue (hs.value.mp hv)) (hs.world ▸ hdeserted)
  | inHand hd hfreed hpending hvalue hretiring =>
    exact .inHand (hdeferred hd) (hs.freed.trans hfreed) (fun hp => hpending (hs.pending.mp hp))
      (hs.value.mpr hvalue) (hs.world ▸ hretiring)
  | gone hd hfreed ha hvacated =>
    refine .gone (hdeferred hd) (hs.freed.trans hfreed) (hapart ha) ?_
    rw [clientEvents_append, hs.events, List.append_nil]
    exact hs.world ▸ hvacated

/-! ## The destructor and the destroyer -/

variable {next : Fleet D} {a : Action D} {t : Tid}

theorem clientEvents_freed (k : Nat) (l : List (FleetEvent D)) (j : Nat) (t : Tid) :
    clientEvents k (l ++ [.freed j t]) = clientEvents k l := by
  simp [clientEvents, FleetEvent.ofClient]

theorem Placed.enqueue (h : Placed s l k) (hpc : s.destructor k = .stopCallback t)
    (hidle : (s.world k).api t = .idle) :
    Placed { s.setDestructor k (.notify t) with pending := s.pending ++ [k] }
      (l ++ [.enqueued k]) k := by
  cases h with
  | deferring n hpc' hfreed ha hdeserted =>
    obtain rfl : .worker n = t := by rw [hpc] at hpc'; cases hpc'; rfl
    exact .pending (.inl ⟨n, Function.update_self ..⟩) hfreed (by simp) ha.2
      (hdeserted.of_idle hidle destroyerThread)
  | owned hpc' | checked _ _ hpc' => rw [hpc] at hpc'; cases hpc'
  | stopping _ _ hpc' => simp [hpc] at hpc'
  | pending hd | inHand hd | gone hd => simp [Fleet.deferred, hpc] at hd

theorem Placed.notify (h : Placed s l k) (hpc : s.destructor k = .notify t) :
    Placed { s.setDestructor k .returned with sleeping := false } l k := by
  have hdeferred : Fleet.deferred { s.setDestructor k .returned with sleeping := false } k :=
    .inr (Function.update_self ..)
  cases h with
  | pending _ hfreed hpending hvalue hdeserted =>
    exact .pending hdeferred hfreed hpending hvalue hdeserted
  | inHand _ hfreed hpending hvalue hretiring =>
    exact .inHand hdeferred hfreed hpending hvalue hretiring
  | gone _ hfreed ha hvacated => exact .gone hdeferred hfreed ha hvacated
  | owned hpc' | checked _ _ hpc' | deferring _ hpc' => rw [hpc] at hpc'; cases hpc'
  | stopping _ _ hpc' => simp [hpc] at hpc'

theorem Placed.stop (h : Placed s l k) (hpc : s.destructor k = .stop t) :
    Placed { s.setDestructor k (.implStop t) with
      world := Function.update s.world k ((s.world k).enter t .stop) }
      (l ++ [.client k (.entered t .stop)]) k := by
  cases h with
  | stopping m hne hpc' hfreed ha hretiring =>
    obtain rfl : .client m = t := by simpa [hpc, eq_comm] using hpc'
    refine .stopping m hne (.inr (Function.update_self ..)) hfreed ha ?_
    simpa using Retiring.enter hretiring.deserted
  | owned hpc' | checked _ _ hpc' | deferring _ hpc' => rw [hpc] at hpc'; cases hpc'
  | pending hd | inHand hd | gone hd => simp [Fleet.deferred, hpc] at hd

/-- The client that the destroyer has in hand. -/
theorem Placed.held (h : Placed s l k) (hvalue : s.destroyer.value = some k) :
    s.deferred k ∧ s.freed k = false ∧ k ∉ s.pending ∧ Retiring (s.world k) 0 := by
  cases h with
  | inHand hd hfreed hpending _ hretiring => exact ⟨hd, hfreed, hpending, hretiring⟩
  | pending _ _ _ hnot => exact absurd hvalue hnot
  | owned _ _ ha | checked _ _ _ _ ha | deferring _ _ _ ha | stopping _ _ _ _ ha | gone _ _ ha =>
    exact absurd hvalue ha.2

theorem retiring_destroyer {w : World D} (h : Deserted w destroyerThread) :
    Retiring (w.enter destroyerThread .stop) 0 := Retiring.enter h

theorem Placed.take (h : Placed s l k) {rest : List Nat} (hpending : s.pending = k :: rest)
    (hnodup : s.pending.Nodup) :
    Placed { s with
      pending := rest
      destroyer := .stop k
      world := Function.update s.world k ((s.world k).enter destroyerThread .stop) }
      (l ++ [.client k (.entered destroyerThread .stop)]) k := by
  have hmem : k ∈ s.pending := by simp [hpending]
  rw [hpending] at hnodup
  cases h with
  | pending hd hfreed _ _ hdeserted =>
    refine .inHand hd hfreed (List.nodup_cons.mp hnodup).1 rfl ?_
    simpa using retiring_destroyer hdeserted
  | inHand _ _ hnot => exact absurd hmem hnot
  | owned _ _ ha | checked _ _ _ _ ha | deferring _ _ _ ha | stopping _ _ _ _ ha | gone _ _ ha =>
    exact absurd hmem ha.1

/-! ## One step -/

section
variable (s k) (a : Action D)

@[simp] theorem Fleet.use_destructor : (s.use k a).destructor = s.destructor := by cases a <;> rfl
@[simp] theorem Fleet.use_freed : (s.use k a).freed = s.freed := by cases a <;> rfl
@[simp] theorem Fleet.use_pending : (s.use k a).pending = s.pending := by cases a <;> rfl
@[simp] theorem Fleet.use_destroyer : (s.use k a).destroyer = s.destroyer := by cases a <;> rfl
@[simp] theorem Fleet.use_sleeping : (s.use k a).sleeping = s.sleeping := by cases a <;> rfl

end

/-- After the beginning of its destruction a client is called by its callback only. -/
theorem permits_call {c : Call} (h : s.permits k (.call t c) = true)
    (hpc : s.destructor k ≠ .unborn) : (∃ n, t = .worker n) ∧ (∀ callback, c ≠ .start callback) ∧
      (s.destructor k).outsideCallback = true := by
  simp only [Fleet.permits, hpc, if_false, Bool.and_eq_true] at h
  obtain ⟨-, ⟨hworker, hstart⟩, houtside⟩ := h
  refine ⟨?_, fun callback hc => ?_, houtside⟩
  · cases t with
    | worker n => exact ⟨n, rfl⟩
    | client m => cases hworker
  · rw [hc] at hstart
    cases hstart

section
variable [DecidableEq D] [Double D]

theorem within_some (h : s.within config j a next = some (s', l')) :
    ∃ w events, step (config j) (s.world j) a = some (w, events) ∧
      s' = { next with world := Function.update s.world j w } ∧ l' = events.map (.client j) := by
  unfold Fleet.within at h
  split at h <;> cases h
  exact ⟨_, _, ‹_›, rfl, rfl⟩

/-- The call of `stop` in a destructor or in the destroyer. -/
theorem within_stop (h : s.within config j (.call t .stop) next = some (s', l')) :
    (s.world j).api t = .idle ∧ (s.world j).mayCall t = true ∧
      s' = { next with world := Function.update s.world j ((s.world j).enter t .stop) } ∧
      l' = [.client j (.entered t .stop)] := by
  obtain ⟨w, events, hstep, rfl, rfl⟩ := within_some h
  simp only [step] at hstep
  split at hstep
  · split at hstep <;> cases hstep
    exact ⟨‹_›, ‹_›, rfl, rfl⟩
  · cases hstep

theorem permits_lastCalls {w : World D} {events : List (Event D)} (h : s.permits k a = true)
    (hpc : s.destructor k ≠ .unborn) (hstep : step (config k) (s.world k) a = some (w, events))
    (t : Tid) : LastCalls t events ∧ ∀ m c, .entered (.client m) c ∉ events := by
  suffices ∀ t' c, .entered t' c ∈ events →
      (∃ n, t' = .worker n) ∧ ∀ callback, c ≠ .start callback by
    refine ⟨fun t' c he => .inr (this t' c he), fun m c he => ?_⟩
    obtain ⟨⟨n, hn⟩, -⟩ := this _ c he
    cases hn
  intro t' c he
  cases a with
  | call t'' c' =>
    obtain ⟨hworker, hstart, -⟩ := permits_call h hpc
    simp only [step] at hstep
    split at hstep
    · split at hstep <;> cases hstep
      cases List.mem_singleton.mp he
      exact ⟨hworker, hstart⟩
    · cases hstep
  | api t'' c' =>
    obtain ⟨r, hnext, -, -, rfl⟩ := step_api hstep
    cases apiNext_events hnext _ he
  | run n c' =>
    obtain ⟨r, hnext, -, -, rfl⟩ := step_run hstep
    cases runNext_events hnext _ he
  | tick | spurious => cases hstep; cases he

theorem inCallback_kept {w w' : World D} {config : Config D} {events : List (Event D)} {n : Nat}
    (ho : Orderly w) (hcallback : w.inCallback n = true)
    (hstep : step config w a = some (w', events))
    (ha : ∀ c, a ≠ .run n c) : w'.inCallback n = true := by
  cases a with
  | tick | spurious => cases hstep; exact hcallback
  | call t c =>
    simp only [step] at hstep
    (repeat' split at hstep) <;> cases hstep
    exact hcallback
  | api t c =>
    obtain ⟨r, hnext, -, rfl, -⟩ := step_api hstep
    obtain ⟨sample, outcome, hpc⟩ := inCallback_iff.mp hcallback
    refine inCallback_iff.mpr ⟨sample, outcome, ?_⟩
    rcases ho.applyApi_worker config t r n with hsame | ⟨hunborn, -⟩
    · rw [hsame, hpc]
    · rw [hunborn] at hpc
      cases hpc
  | run m c =>
    obtain ⟨r, hnext, -, rfl, -⟩ := step_run hstep
    have hne : n ≠ m := fun h => ha c (by rw [h])
    unfold World.inCallback
    rw [World.applyRun_workers, Function.update_of_ne hne]
    exact hcallback

theorem idle_kept {w w' : World D} {config : Config D} {events : List (Event D)}
    (hidle : w.api t = .idle) (hstep : step config w a = some (w', events))
    (ha : ∀ c, a ≠ .call t c) : w'.api t = .idle := by
  by_cases hcaller : a.caller = some t
  · cases a with
    | call t' c => cases hcaller; exact absurd rfl (ha c)
    | api t' c =>
      cases hcaller
      obtain ⟨r, hnext, -⟩ := step_api hstep
      rw [hidle] at hnext
      cases hnext
    | tick | run | spurious => cases hcaller
  · rw [step_api_of_ne hstep hcaller, hidle]

/-- The effect of a step, by what makes it. -/
inductive FleetMoved (config : Nat → Config D) (s : Fleet D) :
    Fleet D → List (FleetEvent D) → Prop
  | client (k : Nat) (a : Action D) (w : World D) (events : List (Event D))
    (hp : s.permits k a = true) (hstep : step (config k) (s.world k) a = some (w, events)) :
    FleetMoved config s { s.use k a with world := Function.update s.world k w }
      (events.map (.client k))
  | destroy (k : Nat) (t : Tid) (hmay : s.mayDestroy k t = true) :
    FleetMoved config s (s.setDestructor k (.check t)) []
  | check (k : Nat) (t : Tid) (hpc : s.destructor k = .check t)
    (hlock : (s.world k).locks .lifecycle = none) (hidle : (s.world k).api t = .idle)
    (hmay : (s.world k).mayCall t = true) :
    FleetMoved config s
      { s.setDestructor k
          (if (s.world k).impl.isActiveWorker t then .stopCallback t else .stop t) with
        world := Function.update s.world k ((s.world k).enter t .stop) }
      [.client k (.entered t .stop)]
  | enqueue (k : Nat) (t : Tid) (hpc : s.destructor k = .stopCallback t)
    (hidle : (s.world k).api t = .idle) (hblock : s.destroyer ≠ .block) :
    FleetMoved config s { s.setDestructor k (.notify t) with pending := s.pending ++ [k] }
      [.enqueued k]
  | notify (k : Nat) (t : Tid) (hpc : s.destructor k = .notify t) :
    FleetMoved config s { s.setDestructor k .returned with sleeping := false } []
  | stop (k : Nat) (t : Tid) (hpc : s.destructor k = .stop t) (hidle : (s.world k).api t = .idle)
    (hmay : (s.world k).mayCall t = true) :
    FleetMoved config s
      { s.setDestructor k (.implStop t) with
        world := Function.update s.world k ((s.world k).enter t .stop) }
      [.client k (.entered t .stop)]
  | free (k : Nat) (t : Tid) (hpc : s.destructor k = .implStop t)
    (hidle : (s.world k).api t = .idle) :
    FleetMoved config s ((s.setDestructor k .returned).free k) [.freed k t]
  | block (hpc : s.destroyer = .take) (hempty : s.pending = []) :
    FleetMoved config s { s with destroyer := .block } []
  | take (k : Nat) (rest : List Nat) (hpc : s.destroyer = .take) (hpending : s.pending = k :: rest)
    (hidle : (s.world k).api destroyerThread = .idle) :
    FleetMoved config s
      { s with
        pending := rest
        destroyer := .stop k
        world := Function.update s.world k ((s.world k).enter destroyerThread .stop) }
      [.client k (.entered destroyerThread .stop)]
  | sleep (hpc : s.destroyer = .block) :
    FleetMoved config s { s with destroyer := .asleep, sleeping := true } []
  | wake (hpc : s.destroyer = .asleep) (hsleeping : s.sleeping = false) :
    FleetMoved config s { s with destroyer := .take } []
  | stopValue (k : Nat) (hpc : s.destroyer = .stop k)
    (hidle : (s.world k).api destroyerThread = .idle) :
    FleetMoved config s
      { s with
        destroyer := .implStop k
        world := Function.update s.world k ((s.world k).enter destroyerThread .stop) }
      [.client k (.entered destroyerThread .stop)]
  | freeValue (k : Nat) (hpc : s.destroyer = .implStop k)
    (hidle : (s.world k).api destroyerThread = .idle) :
    FleetMoved config s ({ s with destroyer := .take }.free k) [.freed k destroyerThread]
  | spurious : FleetMoved config s { s with sleeping := false } []

theorem destructorNext_moved {p : DestructorPc} (hp : s.destructor k = p)
    (h : s.destructorNext config k p = some (s', l')) : FleetMoved config s s' l' := by
  cases p with
  | unborn | returned => cases h
  | check t =>
    simp only [Fleet.destructorNext] at h
    split at h
    · obtain ⟨hidle, hmay, rfl, rfl⟩ := within_stop h
      exact .check k t hp ‹_› hidle hmay
    · cases h
  | stopCallback t =>
    simp only [Fleet.destructorNext] at h
    split at h <;> cases h
    rename_i hstopped
    exact .enqueue k t hp (isIdle_iff.mp hstopped.1) hstopped.2
  | notify t => cases h; exact .notify k t hp
  | stop t =>
    simp only [Fleet.destructorNext] at h
    split at h
    · obtain ⟨hidle, hmay, rfl, rfl⟩ := within_stop h
      exact .stop k t hp hidle hmay
    · cases h
  | implStop t =>
    simp only [Fleet.destructorNext] at h
    split at h <;> cases h
    exact .free k t hp (isIdle_iff.mp ‹_›)

theorem destroyerNext_moved {p : DestroyerPc} (hp : s.destroyer = p)
    (h : s.destroyerNext config p = some (s', l')) : FleetMoved config s s' l' := by
  cases p with
  | take =>
    simp only [Fleet.destroyerNext] at h
    split at h
    · cases h
      exact .block hp ‹_›
    · obtain ⟨hidle, -, rfl, rfl⟩ := within_stop h
      exact .take _ _ hp ‹_› hidle
  | block => cases h; exact .sleep hp
  | asleep =>
    simp only [Fleet.destroyerNext] at h
    split at h <;> cases h
    exact .wake hp (eq_false_of_ne_true ‹_›)
  | stop k =>
    simp only [Fleet.destroyerNext] at h
    split at h
    · obtain ⟨hidle, -, rfl, rfl⟩ := within_stop h
      exact .stopValue k hp hidle
    · cases h
  | implStop k =>
    simp only [Fleet.destroyerNext] at h
    split at h <;> cases h
    exact .freeValue k hp (isIdle_iff.mp ‹_›)

theorem fleetMoved_of_step {a : FleetAction D} (h : s.step config a = some (s', l')) :
    FleetMoved config s s' l' := by
  cases a with
  | client k a =>
    simp only [Fleet.step] at h
    split at h
    · obtain ⟨w, events, hstep, rfl, rfl⟩ := within_some h
      exact .client k a w events ‹_› hstep
    · cases h
  | destroy k t =>
    simp only [Fleet.step] at h
    split at h <;> cases h
    exact .destroy k t ‹_›
  | destructor k => exact destructorNext_moved rfl h
  | destroyer => exact destroyerNext_moved rfl h
  | spurious => cases h; exact .spurious

/-- A step of the client itself. -/
theorem Placed.act (h : Placed s l k) (hv : Reachable (config k) (s.world k) (clientEvents k l))
    (hp : s.permits k a = true) {w : World D} {events : List (Event D)}
    (hstep : step (config k) (s.world k) a = some (w, events)) :
    Placed { s.use k a with world := Function.update s.world k w }
      (l ++ events.map (.client k)) k := by
  have hm := moved_of_step hstep
  have hcalls := fun hpc t => permits_lastCalls (s := s) (k := k) hp hpc hstep t
  cases h with
  | owned hpc hfreed ha husers =>
    refine .owned (by simpa using hpc) (by simpa using hfreed) (by simpa [Fleet.apart] using ha)
      fun t ht => ?_
    simp only [Function.update_self] at ht
    cases a with
    | call t' c =>
      simp only [Fleet.use, Function.update_self, List.mem_cons]
      by_cases htt : t = t'
      · exact .inl htt
      · rw [step_api_of_ne hstep (by simp [Action.caller, Ne.symm htt])] at ht
        exact .inr (husers t ht)
    | api t' c =>
      by_cases htt : t' = t
      · subst htt
        obtain ⟨r, hnext, -⟩ := step_api hstep
        exact husers t' (apiNext_ne_idle hnext)
      · rw [step_api_of_ne hstep (by simp [Action.caller, htt])] at ht
        exact husers t ht
    | tick | run | spurious =>
      rw [step_api_of_ne hstep (by simp [Action.caller])] at ht
      exact husers t ht
  | checked t hne hpc hfreed ha hidle hmay hdeserted =>
    have hnocall : ∀ c, a ≠ .call t c := by
      rintro c rfl
      obtain ⟨⟨n, rfl⟩, -, houtside⟩ := permits_call hp (by simp [hpc])
      rw [hpc] at houtside
      cases houtside
    refine .checked t hne (by simpa using hpc) (by simpa using hfreed)
      (by simpa [Fleet.apart] using ha)
      ?_ ?_ ?_
    · simpa using idle_kept hidle hstep hnocall
    · cases t with
      | client m => rfl
      | worker n =>
        have hrun : ∀ c, a ≠ .run n c := by
          rintro c rfl
          simp [Fleet.permits, hpc, DestructorPc.thread] at hp
        simpa [World.mayCall] using inCallback_kept hv.orderly hmay hstep hrun
    · simpa using hdeserted.move hm (hcalls (by simp [hpc]) t).1
  | deferring n hpc hfreed ha hdeserted =>
    refine .deferring n (by simpa using hpc) (by simpa using hfreed)
      (by simpa [Fleet.apart] using ha) ?_
    simpa using hdeserted.move hm (hcalls (by simp [hpc]) _).1
  | stopping m hne hpc hfreed ha hretiring =>
    have hborn : s.destructor k ≠ .unborn := by rcases hpc with hpc | hpc <;> simp [hpc]
    refine .stopping m hne (by simpa using hpc) (by simpa using hfreed)
      (by simpa [Fleet.apart] using ha) ?_
    simpa using hretiring.move hv hm (hcalls hborn _).1 ((hcalls hborn (.client m)).2 m .stop)
  | pending hd hfreed hpending hvalue hdeserted =>
    have hborn : s.destructor k ≠ .unborn := by rcases hd with ⟨n, hpc⟩ | hpc <;> simp [hpc]
    refine .pending (by simpa [Fleet.deferred] using hd) (by simpa using hfreed)
      (by simpa using hpending) (by simpa using hvalue) ?_
    simpa using hdeserted.move hm (hcalls hborn _).1
  | inHand hd hfreed hpending hvalue hretiring =>
    have hborn : s.destructor k ≠ .unborn := by rcases hd with ⟨n, hpc⟩ | hpc <;> simp [hpc]
    refine .inHand (by simpa [Fleet.deferred] using hd) (by simpa using hfreed)
      (by simpa using hpending) (by simpa using hvalue) ?_
    simpa using hretiring.move hv hm (hcalls hborn _).1 ((hcalls hborn (.client 0)).2 0 .stop)
  | gone hd hfreed ha hvacated =>
    simp [Fleet.permits, hfreed] at hp

end

/-- What a thread may be doing when the destruction begins. -/
theorem deserted_of_mayStay {w : World D} (ho : Orderly w)
    (hstay : ∀ t, w.api t ≠ .idle → Fleet.mayStay w t = true) : Deserted w t := by
  have hjoin : ∀ m, w.api (.client m) ≠ .idle → ∃ n, w.api (.client m) = .stop (.join n) := by
    intro m hm
    have hmay := hstay _ hm
    unfold Fleet.mayStay at hmay
    split at hmay
    · exact absurd ‹_› hm
    · exact ⟨_, ‹_›⟩
    · cases hmay
    · cases hmay
  refine ⟨fun t callback q hpc => ?_, fun m _ => ?_, fun m k _ _ hm hk => ?_⟩
  · have hmay := hstay t (by simp [hpc])
    simp [Fleet.mayStay, hpc] at hmay
  · by_cases hm : w.api (.client m) = .idle
    · rw [hm]
      rfl
    · obtain ⟨n, hn⟩ := hjoin m hm
      rw [hn]
      rfl
  · obtain ⟨n, hn⟩ := hjoin m hm
    obtain ⟨n', hn'⟩ := hjoin k hk
    have heq := ho.life.joinerUnique (.client m) (.client k) n n'
      (by simp [World.life, hn, ApiPc.role, StopPc.role, Role.joins])
      (by simp [World.life, hn', ApiPc.role, StopPc.role, Role.joins])
    cases heq
    rfl

theorem Placed.destroy (h : Placed s l k) (ho : Orderly (s.world k))
    (hmay : s.mayDestroy k t = true) : Placed (s.setDestructor k (.check t)) l k := by
  simp only [Fleet.mayDestroy, Bool.and_eq_true, decide_eq_true_eq, List.all_eq_true] at hmay
  obtain ⟨⟨⟨⟨hpc, hne⟩, hidle⟩, hmay⟩, hstay⟩ := hmay
  replace hidle := isIdle_iff.mp hidle
  cases h with
  | owned _ hfreed ha husers =>
    exact .checked t hne (Function.update_self ..) hfreed ha hidle hmay
      (deserted_of_mayStay ho fun t' ht' => hstay t' (husers t' ht'))
  | checked | deferring => simp_all
  | stopping => simp_all
  | pending hd | inHand hd | gone hd =>
    rcases hd with ⟨n, hn⟩ | hn <;> rw [hpc] at hn <;> cases hn

theorem Fleet.aside_setDestructor (s : Fleet D) (p : DestructorPc) (h : k ≠ j) :
    Aside s (s.setDestructor j p) [] k :=
  ⟨rfl, rfl, Function.update_of_ne h .., rfl, .rfl, .rfl, rfl⟩

/-- A step inside another client. -/
theorem Aside.within (h : Aside s next [] k) (hkj : k ≠ j) (w : World D) (events : List (Event D)) :
    Aside s { next with world := Function.update s.world j w } (events.map (.client j)) k :=
  ⟨Function.update_of_ne hkj .., h.users, h.destructor, h.freed, h.pending, h.value,
    clientEvents_map_of_ne (Ne.symm hkj) events⟩

/-- What was freed, and by whom. -/
structure Freed (s : Fleet D) (l : List (FleetEvent D)) : Prop where
  freed : ∀ k, s.freed k = true ↔ k ∈ freedClients l
  once : (freedClients l).Nodup
  reclaimed : ∀ k ∈ enqueuedClients l, k ∈ freedClients l → k ∈ reclaimedClients l

theorem Freed.free (h : Freed s l) (hfreed : s.freed k = false) (hs : s'.freed = (s.free k).freed)
    (hown : t = destroyerThread ∨ k ∉ enqueuedClients l) : Freed s' (l ++ [.freed k t]) := by
  have hnot : k ∉ freedClients l := fun hk => by
    rw [(h.freed k).mpr hk] at hfreed
    cases hfreed
  refine ⟨fun j => ?_, ?_, fun j hj hj' => ?_⟩
  · rw [hs, Fleet.free]
    by_cases hj : j = k
    · simp [hj, FleetEvent.freedClient]
    · simpa [Function.update_of_ne hj, FleetEvent.freedClient, hj] using h.freed j
  · simpa [FleetEvent.freedClient, List.nodup_append, h.once] using
      fun j hj (hjk : j = k) => hnot (hjk ▸ hj)
  · replace hj : j ∈ enqueuedClients l := by simpa [FleetEvent.enqueuedClient] using hj
    rw [reclaimedClients_concat]
    by_cases hjk : j = k
    · subst hjk
      have ht := hown.resolve_right (fun hnot => hnot hj)
      simp [FleetEvent.reclaimedClient, ht]
    · have hj'' : j ∈ freedClients l := by simpa [FleetEvent.freedClient, hjk] using hj'
      exact List.mem_append_left _ (h.reclaimed j hj hj'')

/-! ## The fleet -/

structure FleetInv [DecidableEq D] [Double D] (config : Nat → Config D) (s : Fleet D)
    (l : List (FleetEvent D)) : Prop where
  reachable : ∀ k, Reachable (config k) (s.world k) (clientEvents k l)
  placed : ∀ k, Placed s l k
  order : enqueuedClients l = reclaimedClients l ++ s.destroyer.value.toList ++ s.pending
  nodup : (enqueuedClients l).Nodup
  deferred : ∀ k ∈ enqueuedClients l, s.deferred k
  freed : ∀ k, s.freed k = true ↔ k ∈ freedClients l
  once : (freedClients l).Nodup
  reclaimed : ∀ k ∈ enqueuedClients l, k ∈ freedClients l → k ∈ reclaimedClients l
  empty : s.destroyer = .block → s.pending = []
  asleep : s.sleeping = true → s.destroyer = .asleep
  owed : s.sleeping = true → s.pending ≠ [] → ∃ k n, s.destructor k = .notify (.worker n)

section
variable [DecidableEq D] [Double D] {t : Tid}

theorem fleetInv_initial (clock : TimePoint) : FleetInv config (Fleet.initial clock) [] where
  reachable k := ⟨clock, .refl⟩
  placed k := .owned rfl rfl ⟨by simp [Fleet.initial], by simp [Fleet.initial, DestroyerPc.value]⟩
    (by simp [Fleet.initial, World.initial])
  order := rfl
  nodup := .nil
  deferred k hk := by cases hk
  freed k := by simp [Fleet.initial, freedClients]
  once := .nil
  reclaimed k hk := by cases hk
  empty h := by cases h
  asleep h := by cases h
  owed h := by cases h

/-- The histories of the clients, after a step inside client `j`. -/
theorem FleetInv.reachable_within (h : FleetInv config s l) {a : Action D} {w : World D}
    {events : List (Event D)} (hstep : step (config j) (s.world j) a = some (w, events)) (k : Nat) :
    Reachable (config k) (Function.update s.world j w k)
      (clientEvents k (l ++ events.map (.client j))) := by
  rw [clientEvents_append]
  by_cases hk : k = j
  · subst hk
    rw [Function.update_self, clientEvents_map_self]
    exact (h.reachable k).step hstep
  · rw [Function.update_of_ne hk, clientEvents_map_of_ne (Ne.symm hk), List.append_nil]
    exact h.reachable k

theorem FleetInv.pending_nodup (h : FleetInv config s l) : s.pending.Nodup := by
  have hnodup := h.nodup
  rw [h.order] at hnodup
  exact (List.nodup_append.mp hnodup).2.1

/-- `called_from_worker_thread` sends exactly the callbacks to the destroyer. -/
theorem Placed.check (h : Placed s l k) {config : Config D} {events : List (Event D)}
    (hv : Reachable config (s.world k) events) (hpc : s.destructor k = .check t)
    (hlock : (s.world k).locks .lifecycle = none) :
    Placed { s.setDestructor k
        (if (s.world k).impl.isActiveWorker t then .stopCallback t else .stop t) with
      world := Function.update s.world k ((s.world k).enter t .stop) }
      (l ++ [.client k (.entered t .stop)]) k := by
  cases h with
  | checked t' hne hpc' hfreed ha hidle hmay hdeserted =>
    obtain rfl : t' = t := by rw [hpc] at hpc'; cases hpc'; rfl
    cases t' with
    | worker n =>
      have hself := isActiveWorker_of_callback hv.orderly hmay hlock
      have hlast : LastCalls (D := D) (.worker n) [.entered (.worker n) .stop] := fun t' c he => by
        cases List.mem_singleton.mp he
        exact .inl ⟨rfl, rfl⟩
      refine .deferring n (by simp [Fleet.setDestructor, hself]) hfreed ha ?_
      have hmoved : Moved config (s.world k) _ _ := .call _ .stop hidle hmay
      simpa using hdeserted.move hmoved hlast
    | client m =>
      have hself : (s.world k).impl.isActiveWorker (.client m) = false := by
        refine eq_false_of_ne_true fun hself => ?_
        obtain ⟨n, hn⟩ := hv.active_worker (.client m) (by simp_all [Impl.isActiveWorker])
        cases hn
      refine .stopping m (fun hm => hne (by rw [hm]; rfl)) (by simp [Fleet.setDestructor, hself])
        hfreed ha ?_
      simpa using Retiring.enter hdeserted
  | owned hpc' | deferring _ hpc' => rw [hpc] at hpc'; cases hpc'
  | stopping _ _ hpc' => simp [hpc] at hpc'
  | pending hd | inHand hd | gone hd => simp [Fleet.deferred, hpc] at hd

theorem Placed.free (h : Placed s l k) (hv : Reachable (config k) (s.world k) (clientEvents k l))
    (hpc : s.destructor k = .implStop t) (hidle : (s.world k).api t = .idle) :
    Placed ((s.setDestructor k .returned).free k) (l ++ [.freed k t]) k := by
  cases h with
  | stopping m hne hpc' hfreed ha hretiring =>
    obtain rfl : .client m = t := by simpa [hpc, eq_comm] using hpc'
    refine .gone (.inr (Function.update_self ..)) (Function.update_self ..) ha ?_
    rw [clientEvents_freed]
    exact hretiring.vacated hv hidle
  | owned hpc' | checked _ _ hpc' | deferring _ hpc' => rw [hpc] at hpc'; cases hpc'
  | pending hd | inHand hd | gone hd => simp [Fleet.deferred, hpc] at hd

theorem Placed.move (h : FleetInv config s l) (hm : FleetMoved config s s' l') (k : Nat) :
    Placed s' (l ++ l') k := by
  have hplaced := h.placed k
  have hv := h.reachable k
  cases hm with
  | client j a w events hp hstep =>
    by_cases hk : k = j
    · subst hk
      exact hplaced.act hv hp hstep
    · have haside : Aside s (s.use j a) [] k := by
        refine ⟨by cases a <;> rfl, ?_, by simp, by simp, by simp, by simp, rfl⟩
        cases a <;> first | rfl | exact Function.update_of_ne hk ..
      exact hplaced.aside (haside.within hk w events)
  | destroy j t hmay =>
    by_cases hk : k = j
    · subst hk
      rw [List.append_nil]
      exact hplaced.destroy hv.orderly hmay
    · exact hplaced.aside (s.aside_setDestructor _ hk)
  | check j t hpc hlock hidle hmay =>
    by_cases hk : k = j
    · subst hk
      exact hplaced.check hv hpc hlock
    · exact hplaced.aside ((s.aside_setDestructor _ hk).within hk _ [.entered t .stop])
  | enqueue j t hpc hidle hblock =>
    by_cases hk : k = j
    · subst hk
      exact hplaced.enqueue hpc hidle
    · exact hplaced.aside
        ⟨rfl, rfl, Function.update_of_ne hk .., rfl, by simp [hk], .rfl, rfl⟩
  | notify j t hpc =>
    by_cases hk : k = j
    · subst hk
      rw [List.append_nil]
      exact hplaced.notify hpc
    · exact hplaced.aside ⟨rfl, rfl, Function.update_of_ne hk .., rfl, .rfl, .rfl, rfl⟩
  | stop j t hpc hidle hmay =>
    by_cases hk : k = j
    · subst hk
      exact hplaced.stop hpc
    · exact hplaced.aside ((s.aside_setDestructor _ hk).within hk _ [.entered t .stop])
  | free j t hpc hidle =>
    by_cases hk : k = j
    · subst hk
      exact hplaced.free hv hpc hidle
    · exact hplaced.aside ⟨rfl, rfl, Function.update_of_ne hk .., Function.update_of_ne hk .., .rfl,
        .rfl, rfl⟩
  | block hpc hempty =>
    exact hplaced.aside ⟨rfl, rfl, rfl, rfl, .rfl, by simp [hpc, DestroyerPc.value], rfl⟩
  | take j rest hpc hpending hidle =>
    by_cases hk : k = j
    · subst hk
      exact hplaced.take hpending h.pending_nodup
    · have haside : Aside s { s with pending := rest, destroyer := .stop j } [] k := by
        refine ⟨rfl, rfl, rfl, rfl, by simp [hpending, hk], ?_, rfl⟩
        simp [hpc, DestroyerPc.value, Ne.symm hk]
      exact hplaced.aside (haside.within hk _ [.entered destroyerThread .stop])
  | sleep hpc =>
    exact hplaced.aside ⟨rfl, rfl, rfl, rfl, .rfl, by simp [hpc, DestroyerPc.value], rfl⟩
  | wake hpc =>
    exact hplaced.aside ⟨rfl, rfl, rfl, rfl, .rfl, by simp [hpc, DestroyerPc.value], rfl⟩
  | stopValue j hpc hidle =>
    by_cases hk : k = j
    · subst hk
      obtain ⟨hd, hfreed, hpending, hretiring⟩ := hplaced.held (by rw [hpc]; rfl)
      refine .inHand hd hfreed hpending rfl ?_
      simpa using retiring_destroyer hretiring.deserted
    · have haside : Aside s { s with destroyer := .implStop j } [] k :=
        ⟨rfl, rfl, rfl, rfl, .rfl, by simp [hpc, DestroyerPc.value], rfl⟩
      exact hplaced.aside (haside.within hk _ [.entered destroyerThread .stop])
  | freeValue j hpc hidle =>
    by_cases hk : k = j
    · subst hk
      obtain ⟨hd, hfreed, hpending, hretiring⟩ := hplaced.held (by rw [hpc]; rfl)
      refine .gone hd (Function.update_self ..)
        ⟨hpending, by simp [Fleet.free, DestroyerPc.value]⟩ ?_
      rw [clientEvents_freed]
      exact hretiring.vacated hv hidle
    · exact hplaced.aside ⟨rfl, rfl, rfl, Function.update_of_ne hk .., .rfl,
        by simp [hpc, DestroyerPc.value, Fleet.free, Ne.symm hk], rfl⟩
  | spurious => exact hplaced.aside ⟨rfl, rfl, rfl, rfl, .rfl, .rfl, rfl⟩

theorem deferred_kept (hm : FleetMoved config s s' l') (hd : s.deferred k) : s'.deferred k := by
  have hset : ∀ j p, s.destructor j ≠ .returned → (∀ n, s.destructor j ≠ .notify (.worker n)) →
      (s.setDestructor j p).deferred k := fun j p hreturned hnotify => by
    have hne : k ≠ j := by
      rintro rfl
      rcases hd with ⟨n, hn⟩ | hr
      · exact hnotify n hn
      · exact hreturned hr
    simpa [Fleet.deferred, Fleet.setDestructor, Function.update_of_ne hne] using hd
  cases hm with
  | client j a w events hp hstep => simpa [Fleet.deferred] using hd
  | destroy j t hmay =>
    exact hset j _ (by simp_all [Fleet.mayDestroy]) (by simp_all [Fleet.mayDestroy])
  | check j t hpc | enqueue j t hpc | stop j t hpc | free j t hpc =>
    exact hset j _ (by simp [hpc]) (by simp [hpc])
  | notify j t hpc =>
    by_cases hk : k = j
    · exact .inr (by simp [Fleet.setDestructor, hk])
    · simpa [Fleet.deferred, Fleet.setDestructor, Function.update_of_ne hk] using hd
  | _ => exact hd

theorem FleetInv.reachable_move (h : FleetInv config s l) (hm : FleetMoved config s s' l')
    (k : Nat) :
    Reachable (config k) (s'.world k) (clientEvents k (l ++ l')) := by
  have hcall : ∀ {j t}, (s.world j).api t = .idle → (s.world j).mayCall t = true →
      step (config j) (s.world j) (.call t .stop) =
        some ((s.world j).enter t .stop, [.entered t .stop]) := fun hidle hmay => by
    simp [step, hidle, hmay]
  have hsame : clientEvents k l' = [] →
      Reachable (config k) (s.world k) (clientEvents k (l ++ l')) :=
    fun hnil => by
      rw [clientEvents_append, hnil, List.append_nil]
      exact h.reachable k
  cases hm with
  | client j a w events hp hstep => exact h.reachable_within hstep k
  | check j t hpc hlock hidle hmay => exact h.reachable_within (hcall hidle hmay) k
  | stop j t hpc hidle hmay => exact h.reachable_within (hcall hidle hmay) k
  | take j rest hpc hpending hidle => exact h.reachable_within (hcall hidle rfl) k
  | stopValue j hpc hidle => exact h.reachable_within (hcall hidle rfl) k
  | _ => exact hsame rfl

/-- The lists of clients, but for what is done by `enqueue` and by the two ways to be freed. -/
theorem FleetInv.order_move (h : FleetInv config s l) (hm : FleetMoved config s s' l') :
    enqueuedClients (l ++ l') =
      reclaimedClients (l ++ l') ++ s'.destroyer.value.toList ++ s'.pending := by
  have horder := h.order
  cases hm with
  | client j a w events hp hstep => simpa using horder
  | free j t hpc hidle =>
    have hne : t ≠ destroyerThread := by
      rintro rfl
      cases h.placed j with
      | stopping m hne hpc' => simp [hpc, destroyerThread, Ne.symm hne] at hpc'
      | owned hpc' | checked _ _ hpc' | deferring _ hpc' => rw [hpc] at hpc'; cases hpc'
      | pending hd | inHand hd | gone hd => simp [Fleet.deferred, hpc] at hd
    simpa [FleetEvent.enqueuedClient, FleetEvent.reclaimedClient, Fleet.setDestructor, Fleet.free,
      hne] using horder
  | _ =>
    simp_all [FleetEvent.enqueuedClient, FleetEvent.reclaimedClient, DestroyerPc.value,
      Fleet.setDestructor, Fleet.free]

theorem FleetInv.nodup_move (h : FleetInv config s l) (hm : FleetMoved config s s' l') :
    (enqueuedClients (l ++ l')).Nodup := by
  have hnodup := h.nodup
  cases hm with
  | client j a w events hp hstep => simpa using hnodup
  | enqueue j t hpc =>
    have hnot : j ∉ enqueuedClients l := fun hj => by
      simpa [Fleet.deferred, hpc] using h.deferred j hj
    simpa [FleetEvent.enqueuedClient, List.nodup_append, hnodup] using
      fun k hk (hkj : k = j) => hnot (hkj ▸ hk)
  | _ => simpa [FleetEvent.enqueuedClient] using hnodup

theorem FleetInv.deferred_move (h : FleetInv config s l) (hm : FleetMoved config s s' l') :
    ∀ k ∈ enqueuedClients (l ++ l'), s'.deferred k := by
  intro k hk
  by_cases hold : k ∈ enqueuedClients l
  · exact deferred_kept hm (h.deferred k hold)
  cases hm with
  | client j a w events hp hstep => simp [hold] at hk
  | enqueue j t hpc hidle hblock =>
    obtain rfl : k = j := by simpa [FleetEvent.enqueuedClient, hold] using hk
    cases h.placed k with
    | deferring n hpc' =>
      obtain rfl : .worker n = t := by rw [hpc] at hpc'; cases hpc'; rfl
      exact .inl ⟨n, Function.update_self ..⟩
    | owned hpc' | checked _ _ hpc' => rw [hpc] at hpc'; cases hpc'
    | stopping _ _ hpc' => simp [hpc] at hpc'
    | pending hd | inHand hd | gone hd => simp [Fleet.deferred, hpc] at hd
  | _ => simp [FleetEvent.enqueuedClient, hold] at hk

theorem FleetInv.freed_move (h : FleetInv config s l) (hm : FleetMoved config s s' l') :
    Freed s' (l ++ l') := by
  have hold : Freed s l := ⟨h.freed, h.once, h.reclaimed⟩
  cases hm with
  | client j a w events hp hstep =>
    exact ⟨by simpa using h.freed, by simpa using h.once, by simpa using h.reclaimed⟩
  | enqueue j t hpc hidle hblock =>
    have hfreed : s.freed j = false := by
      cases h.placed j with
      | gone hd => simp [Fleet.deferred, hpc] at hd
      | _ => assumption
    have hnot : j ∉ freedClients l := fun hj => by
      rw [(h.freed j).mpr hj] at hfreed
      cases hfreed
    refine ⟨by simpa [FleetEvent.freedClient, Fleet.setDestructor] using h.freed,
      by simpa [FleetEvent.freedClient] using h.once, fun k hk hk' => ?_⟩
    simp only [freedClients_concat, FleetEvent.freedClient, Option.toList_none,
      List.append_nil] at hk'
    have hkj : k ≠ j := fun hkj => hnot (hkj ▸ hk')
    simpa [FleetEvent.reclaimedClient] using
      h.reclaimed k (by simpa [FleetEvent.enqueuedClient, hkj] using hk) hk'
  | free j t hpc hidle =>
    refine hold.free ?_ rfl (.inr fun hj => by simpa [Fleet.deferred, hpc] using h.deferred j hj)
    cases h.placed j with
    | gone hd => simp [Fleet.deferred, hpc] at hd
    | _ => assumption
  | freeValue j hpc hidle =>
    exact hold.free ((h.placed j).held (by rw [hpc]; rfl)).2.1 rfl (.inl rfl)
  | _ =>
    exact ⟨by simpa [FleetEvent.freedClient, Fleet.setDestructor] using h.freed,
      by simpa [FleetEvent.freedClient] using h.once,
      by simpa [FleetEvent.enqueuedClient, FleetEvent.freedClient, FleetEvent.reclaimedClient]
        using h.reclaimed⟩

/-- The destroyer does not miss a client. -/
structure Attentive (s : Fleet D) : Prop where
  empty : s.destroyer = .block → s.pending = []
  asleep : s.sleeping = true → s.destroyer = .asleep
  owed : s.sleeping = true → s.pending ≠ [] → ∃ k n, s.destructor k = .notify (.worker n)

theorem FleetInv.awake_move (h : FleetInv config s l) (hm : FleetMoved config s s' l') :
    Attentive s' := by
  have hset : ∀ j p, (∀ n, s.destructor j ≠ .notify (.worker n)) → s.sleeping = true →
      s.pending ≠ [] → ∃ k n, (s.setDestructor j p).destructor k = .notify (.worker n) := by
    intro j p hj hsleeping hpending
    obtain ⟨k, n, hk⟩ := h.owed hsleeping hpending
    have hkj : k ≠ j := fun hkj => hj n (hkj ▸ hk)
    exact ⟨k, n, (Function.update_of_ne hkj ..).trans hk⟩
  have hawake : s.destroyer ≠ .asleep → s.sleeping = false := fun hne =>
    eq_false_of_ne_true fun hsleeping => hne (h.asleep hsleeping)
  cases hm with
  | client j a w events hp hstep =>
    exact ⟨by simpa using h.empty, by simpa using h.asleep, by simpa using h.owed⟩
  | destroy j t hmay => exact ⟨h.empty, h.asleep, hset j _ (by simp_all [Fleet.mayDestroy])⟩
  | check j t hpc | stop j t hpc | free j t hpc =>
    exact ⟨h.empty, h.asleep, hset j _ (by simp [hpc])⟩
  | enqueue j t hpc hidle hblock =>
    refine ⟨fun hb => absurd hb hblock, h.asleep, fun _ _ => ?_⟩
    cases h.placed j with
    | deferring n hpc' =>
      obtain rfl : .worker n = t := by rw [hpc] at hpc'; cases hpc'; rfl
      exact ⟨j, n, Function.update_self ..⟩
    | owned hpc' | checked _ _ hpc' => rw [hpc] at hpc'; cases hpc'
    | stopping _ _ hpc' => simp [hpc] at hpc'
    | pending hd | inHand hd | gone hd => simp [Fleet.deferred, hpc] at hd
  | notify | spurious => exact ⟨h.empty, by simp, by simp⟩
  | block hpc hempty =>
    have hs := hawake (by simp [hpc])
    exact ⟨fun _ => hempty, by simp [hs], by simp [hs]⟩
  | take j rest hpc | stopValue j hpc | freeValue j hpc =>
    have hs := hawake (by simp [hpc])
    exact ⟨by simp [Fleet.free], by simp [hs, Fleet.free], by simp [hs, Fleet.free]⟩
  | sleep hpc => exact ⟨by simp, fun _ => rfl, fun _ hne => absurd (h.empty hpc) hne⟩
  | wake hpc hs => exact ⟨by simp, by simp [hs], by simp [hs]⟩

theorem FleetInv.move (h : FleetInv config s l) (hm : FleetMoved config s s' l') :
    FleetInv config s' (l ++ l') :=
  have hfreed := h.freed_move hm
  have hawake := h.awake_move hm
  { reachable := h.reachable_move hm
    placed := Placed.move h hm
    order := h.order_move hm
    nodup := h.nodup_move hm
    deferred := h.deferred_move hm
    freed := hfreed.freed
    once := hfreed.once
    reclaimed := hfreed.reclaimed
    empty := hawake.empty
    asleep := hawake.asleep
    owed := hawake.owed }

theorem fleetInv_of_run {clock : TimePoint}
    (h : (fleetMachine config).Run (Fleet.initial clock) l s) : FleetInv config s l :=
  h.invariant (I := fun s l => FleetInv config s l) (fleetInv_initial clock)
    fun _ hi hstep => hi.move (fleetMoved_of_step hstep)

/-- Any number of clients are destroyed, in any interleaving. The clients whose destructor runs in
their callback, and only they, are handed to the destroyer, which frees them in that order; no
client is freed twice. A client that is freed has no worker left, every worker it had was joined,
none of its mutexes is held, and no thread is inside, except that one thread which has joined the
worker may be at the two last notifications of its `stop`. The destroyer does not sleep while a
client is pending, unless the notification of one is still to come. -/
theorem deferred_destruction {clock : TimePoint}
    (h : (fleetMachine config).Run (Fleet.initial clock) l s) :
    (∀ k t, s.destructor k = .stopCallback t ∨ s.destructor k = .notify t → t.isWorker = true) ∧
    (∀ k t, s.destructor k = .stop t ∨ s.destructor k = .implStop t → t.isWorker = false) ∧
    enqueuedClients l = reclaimedClients l ++ s.destroyer.value.toList ++ s.pending ∧
    (enqueuedClients l).Nodup ∧ (freedClients l).Nodup ∧
    (∀ k ∈ enqueuedClients l, k ∈ freedClients l ↔ k ∈ reclaimedClients l) ∧
    (∀ k ∈ freedClients l, Vacated (s.world k) (clientEvents k l)) ∧
    (s.sleeping = true → s.pending ≠ [] → ∃ k t, s.destructor k = .notify t) := by
  have hi := fleetInv_of_run h
  refine ⟨fun k t hpc => ?_, fun k t hpc => ?_, hi.order, hi.nodup, hi.once,
    fun k hk => ⟨hi.reclaimed k hk, fun hr => ?_⟩, fun k hk => ?_, fun hs hp => ?_⟩
  · cases hi.placed k with
    | pending hd | inHand hd | gone hd =>
      rcases hd with ⟨n, hn⟩ | hr
      · have ht : t = .worker n := by simpa [hn, eq_comm] using hpc
        rw [ht]
        rfl
      · simp [hr] at hpc
    | deferring n hpc' =>
      have ht : t = .worker n := by simpa [hpc', eq_comm] using hpc
      rw [ht]
      rfl
    | owned hpc' | checked _ _ hpc' => simp [hpc'] at hpc
    | stopping _ _ hpc' => rcases hpc' with hpc' | hpc' <;> simp [hpc'] at hpc
  · cases hi.placed k with
    | stopping m _ hpc' =>
      have ht : t = .client m := by rcases hpc' with hpc' | hpc' <;> simpa [hpc', eq_comm] using hpc
      rw [ht]
      rfl
    | owned hpc' | checked _ _ hpc' | deferring _ hpc' => simp [hpc'] at hpc
    | pending hd | inHand hd | gone hd =>
      rcases hd with ⟨n, hd⟩ | hd <;> simp [hd] at hpc
  · obtain ⟨e, he, hek⟩ := List.mem_filterMap.mp hr
    refine List.mem_filterMap.mpr ⟨e, he, ?_⟩
    cases e with
    | freed j t =>
      simp only [FleetEvent.reclaimedClient] at hek
      split at hek <;> cases hek
      rfl
    | _ => cases hek
  · have hfreed := (hi.freed k).mpr hk
    cases hi.placed k with
    | gone _ _ _ hvacated => exact hvacated
    | _ => simp_all
  · obtain ⟨k, n, hk⟩ := hi.owed hs hp
    exact ⟨k, _, hk⟩

end

/-! ### A run -/

def callbackActions : List (Action Rat) :=
  startActions (.client 1) ++ openActions 0 ++ (receiveActions 0 (List.replicate 36 0)).take 12 ++
    .call (.client 2) .stop :: stopActions (.client 2)

/-- Worker 0 from its callback to its exit, and its join by thread 2 up to the notifications. -/
def exitActions : List (Action Rat) :=
  .run 0 .succeeds :: List.replicate 15 (.run 0 .go) ++ List.replicate 4 (.api (.client 2) .go)

/-- The destroyer is asleep; a client is destroyed in its callback, while a thread joins the worker;
the destroyer frees it before that thread has made its last notifications. -/
def reclaimedFleet : Fleet Rat × List (FleetEvent Rat) :=
  (fleetMachine fun _ => demoConfig .failStop).perform (Fleet.initial 1)
    ([[.destroyer, .destroyer], callbackActions.map (.client 0),
      [.destroy 0 (.worker 0), .destructor 0],
      List.replicate 6 (.client 0 (.api (.worker 0) .go)), [.destructor 0, .destructor 0],
      exitActions.map (.client 0), [.destroyer, .destroyer],
      List.replicate 8 (.client 0 (.api destroyerThread .go)), [.destroyer],
      List.replicate 8 (.client 0 (.api destroyerThread .go)), [.destroyer]] :
        List (List (FleetAction Rat))).flatten

theorem deferred_destruction_reclaimedFleet :
    freedClients reclaimedFleet.2 = [0] ∧
      ((reclaimedFleet.1.world 0).api (.client 2)).notifies = true ∧
      Vacated (reclaimedFleet.1.world 0) (clientEvents 0 reclaimedFleet.2) := by
  have h : (fleetMachine fun _ => demoConfig .failStop).Run (Fleet.initial 1) reclaimedFleet.2
      reclaimedFleet.1 := Machine.run_perform (by decide +kernel)
  have hfreed : freedClients reclaimedFleet.2 = [0] := by decide +kernel
  obtain ⟨-, -, -, -, -, -, hvacated, -⟩ := deferred_destruction h
  exact ⟨hfreed, by decide +kernel, hvacated 0 (by simp [hfreed])⟩

end NetFT.Client
