import NetFT.Library.Simulation
import NetFT.Client.Sockets
import NetFT.Client.Timeout

/-! The client on Windows (`udp_transport_windows.cpp`). There a `shutdown` of the socket does not
wake `WSAPoll`, and `receive` polls in slices between which it looks at `shutdown_requested_`. A client
with this transport is simulated by the client: the slices are interruptions of its `poll`
(`windows_simulated`). -/

namespace NetFT.Client
open Detail Library

variable {D : Type}

/-! ## `UdpTransport::receive` -/

def kShutdownCheckIntervalMilliseconds : Nat := 50

/-- The positions in `receive` after its first section. -/
inductive WindowsPc
  /-- The top of the loop. -/
  | check (deadline : TimePoint)
  | now (deadline : TimePoint)
  /-- In `WSAPoll`, called at `since`. -/
  | poll (deadline since : TimePoint) (milliseconds : Nat)
  /-- After the loop. -/
  | ready
  | revents
  | recv
  /-- `recv` has failed, with `WSAEINTR` or `WSAESHUTDOWN` if `interrupted`. -/
  | failed (interrupted : Bool) (message : String)
  deriving DecidableEq, Repr

/-- What a step in `receive` leads to. -/
inductive ReceiveNext
  | goes (p : WindowsPc)
  | returns (datagram : List UInt8)
  | throws (message : String)
  deriving DecidableEq, Repr

/-- The timeout of the next `WSAPoll`, none if the deadline has passed. -/
def pollMilliseconds (deadline now : TimePoint) : Nat :=
  min kShutdownCheckIntervalMilliseconds (timeoutMilliseconds
    (min (deadline - now) (kShutdownCheckIntervalMilliseconds * ticksPerMillisecond)))

/-- The first section of `receive`, and its deadline. -/
def receiveFirst (transport : UdpTransport) (clock : TimePoint) (remaining : Nat) : ReceiveNext :=
  if transport.socket = none then .throws "UDP socket is not connected"
  else if transport.shutdownRequested then .returns []
  else if clock + remaining > maxTicks then .throws deadlineMessage
  else .goes (.check (clock + remaining))

def receiveNext (transport : UdpTransport) (clock : TimePoint) (c : Choice D) :
    WindowsPc → Option ReceiveNext
  | .check deadline =>
    some (if transport.shutdownRequested then .returns [] else .goes (.now deadline))
  | .now deadline => some (.goes (.poll deadline clock (pollMilliseconds deadline clock)))
  | .poll deadline _ _ =>
    match c with
    | .succeeds => some (.goes .ready)
    | .expires => some (if clock ≥ deadline then .returns [] else .goes (.check deadline))
    | .interrupted => some (.returns [])
    | .fails message => some (.throws message)
    | _ => none
  | .ready => some (if transport.shutdownRequested then .returns [] else .goes .revents)
  | .revents =>
    match c with
    | .succeeds => some (.goes .recv)
    | .fails message => some (.throws message)
    | _ => none
  | .recv =>
    match c with
    | .datagram bytes => some (.returns bytes)
    | .interrupted => some (.goes (.failed true ""))
    | .fails message => some (.goes (.failed false message))
    | _ => none
  | .failed interrupted message =>
    some (if transport.shutdownRequested || interrupted then .returns [] else .throws message)

/-! ## The client -/

/-- A client whose workers stand in `receive` as on Windows. -/
structure WindowsWorld (D : Type) where
  world : World D
  receive : Nat → Option WindowsPc := fun _ => none

def World.setPc (w : World D) (n : Nat) (p : RunPc D) : World D :=
  { w with workers := Function.update w.workers n { w.workers n with pc := p } }

namespace WindowsWorld

/-- Worker `n` goes on in `receive`, or comes out of it. -/
def apply (s : WindowsWorld D) (n : Nat) : ReceiveNext → WindowsWorld D
  | .goes p => { s with receive := Function.update s.receive n (some p) }
  | .returns datagram =>
    { world := s.world.setPc n (.session (.received datagram))
      receive := Function.update s.receive n none }
  | .throws message =>
    { world := s.world.setPc n (.session (.socketFailed message))
      receive := Function.update s.receive n none }

end WindowsWorld

/-- Outside of `receive` the client is the same. -/
def windowsStep [DecidableEq D] [Double D] (config : Config D) (s : WindowsWorld D)
    (a : Action D) : Option (WindowsWorld D × List (Event D)) :=
  let otherwise := (step config s.world a).map fun r => ({ s with world := r.1 }, r.2)
  match a with
  | .run n c =>
    match s.receive n with
    | some p =>
      (receiveNext s.world.impl.transport s.world.clock c p).map fun r => (s.apply n r, [])
    | none =>
      match (s.world.workers n).pc with
      | .session (.receive remaining) =>
        some (s.apply n (receiveFirst s.world.impl.transport s.world.clock remaining), [])
      | _ => otherwise
  | _ => otherwise

def windowsMachine [DecidableEq D] [Double D] (config : Config D) :
    Machine (WindowsWorld D) (Action D) (Event D) where
  step := windowsStep config

/-! ## The simulation -/

/-- The position of the client's own `receive` that stands for it. -/
def WindowsPc.position : WindowsPc → SessionPc D
  | .check deadline | .now deadline | .poll deadline .. => .poll deadline
  | .ready => .pollCheck
  | .revents | .recv | .failed .. => .recv

namespace WindowsWorld

def toWorld (s : WindowsWorld D) : World D :=
  { s.world with
    workers := fun n =>
      match s.receive n with
      | none => s.world.workers n
      | some p => { s.world.workers n with pc := .session p.position } }

/-- A worker in `receive` has been called with the time left. -/
def Waits (s : WindowsWorld D) : Prop :=
  ∀ n p, s.receive n = some p → ∃ remaining, (s.world.workers n).pc = .session (.receive remaining)

end WindowsWorld

/-- Where the client stands after a step in `receive`. -/
def ReceiveNext.position : ReceiveNext → SessionPc D
  | .goes p => p.position
  | .returns datagram => .received datagram
  | .throws message => .socketFailed message

variable {config : Config D} {s s' : WindowsWorld D} {w w' : World D} {t : Tid} {n : Nat}
  {c : Choice D} {l : List (Event D)} {p : WindowsPc}

namespace WindowsWorld

theorem toWorld_of_none (h : s.receive n = none) : s.toWorld.workers n = s.world.workers n := by
  simp only [toWorld, h]

theorem toWorld_of_some (h : s.receive n = some p) :
    s.toWorld.workers n = { s.world.workers n with pc := .session p.position } := by
  simp only [toWorld, h]

/-- Where a worker is not in `receive` its position is the same. -/
theorem Waits.pc (h : s.Waits) (n : Nat) : s.receive n = none ∨
    ∃ p remaining, s.receive n = some p ∧ (s.world.workers n).pc = .session (.receive remaining) ∧
      (s.toWorld.workers n).pc = .session p.position := by
  cases hp : s.receive n with
  | none => exact .inl rfl
  | some p =>
    obtain ⟨remaining, hpc⟩ := h n p hp
    exact .inr ⟨p, remaining, rfl, hpc, by rw [toWorld_of_some hp]⟩

theorem Waits.exited (h : s.Waits) (n : Nat) :
    (s.toWorld.workers n).pc = .exited ↔ (s.world.workers n).pc = .exited := by
  rcases h.pc n with hp | ⟨p, remaining, -, hpc, hpc'⟩
  · rw [toWorld_of_none hp]
  · simp [hpc, hpc']

theorem Waits.inCallback (h : s.Waits) (n : Nat) :
    s.toWorld.inCallback n = s.world.inCallback n := by
  rcases h.pc n with hp | ⟨p, remaining, -, hpc, hpc'⟩
  · simp only [World.inCallback, toWorld_of_none hp]
  · cases p <;> simp [World.inCallback, hpc, hpc', WindowsPc.position]

theorem Waits.mayCall (h : s.Waits) (t : Tid) : s.toWorld.mayCall t = s.world.mayCall t := by
  cases t with
  | client m => rfl
  | worker n => exact h.inCallback n

end WindowsWorld

/-- The entry points look at a worker only to join it. -/
theorem apiNext_same (w w' : World D) (himpl : w'.impl = w.impl) (hclock : w'.clock = w.clock)
    (hcreated : w'.created = w.created)
    (hexited : ∀ n, (w'.workers n).pc = .exited ↔ (w.workers n).pc = .exited) (p : ApiPc D) :
    apiNext w' t c p = apiNext w t c p := by
  have hjoin : ∀ n, (w.workers n).pc ≠ .exited → (w'.workers n).pc ≠ .exited :=
    fun n => mt (hexited n).mp
  cases p with
  | idle => rfl
  | start callback q =>
    cases q with
    | join m =>
      simp only [apiNext, startNext, himpl]
      by_cases h : (w.workers m).pc = .exited
      · rw [h, (hexited m).mpr h]
      · have h' := hjoin m h
        split <;> simp_all
    | rollback q previous => cases q <;> simp only [apiNext, startNext, rollbackNext, himpl]
    | _ => simp only [apiNext, startNext, startExitNext, himpl, hcreated]
  | stop q =>
    cases q with
    | join m =>
      simp only [apiNext, stopNext, himpl]
      by_cases h : (w.workers m).pc = .exited
      · rw [h, (hexited m).mpr h]
      · have h' := hjoin m h
        split <;> simp_all
    | _ => simp only [apiNext, stopNext, stopDecideNext, himpl]
  | bias q => cases q <;> simp only [apiNext, biasNext, himpl]
  | wait q => cases q <;> simp only [apiNext, waitNext, himpl]
  | query q => cases q <;> simp only [apiNext, queryNext, himpl, hclock]

/-- A worker looks at no worker. -/
theorem runNext_same [DecidableEq D] [Double D] (w w' : World D) (himpl : w'.impl = w.impl)
    (hclock : w'.clock = w.clock) (hsocket : w'.nextSocket = w.nextSocket)
    (hapi : w'.api = w.api) (worker : Worker D) (p : RunPc D) :
    runNext config w' n c worker p = runNext config w n c worker p := by
  cases p with
  | session q =>
    cases q with
    | record q => cases q <;> simp only [runNext, sessionNext, recordNext, himpl, hapi]
    | _ => simp only [runNext, sessionNext, himpl, hclock, hsocket]
  | _ => simp only [runNext, himpl, hclock]

namespace WindowsWorld

/-- The worker to be created is not in `receive`. -/
theorem created_of_orderly (ho : Orderly s.toWorld) : s.receive s.world.created = none := by
  cases hp : s.receive s.world.created with
  | none => rfl
  | some p =>
    have hunborn := ho.nested.unborn s.world.created (Nat.le_refl _)
    rw [toWorld_of_some hp] at hunborn
    cases hunborn

/-- A worker outside of `receive` is replaced. -/
theorem toWorld_update (h : s.receive n = none) (worker : Worker D) :
    (fun k => match s.receive k with
      | none => Function.update s.world.workers n worker k
      | some p => { Function.update s.world.workers n worker k with pc := .session p.position }) =
        Function.update s.toWorld.workers n worker := by
  funext k
  by_cases hk : k = n
  · subst hk
    simp only [h, Function.update_self]
  · simp only [Function.update_of_ne hk, toWorld]

end WindowsWorld

section
variable [DecidableEq D] [Double D]

namespace WindowsWorld

theorem Waits.api (h : s.Waits) (ho : Orderly s.toWorld)
    (hstep : step config s.world (.api t c) = some (w', l)) :
    step config s.toWorld (.api t c) =
        some (({ s with world := w' } : WindowsWorld D).toWorld, l) ∧
      ({ s with world := w' } : WindowsWorld D).Waits := by
  obtain ⟨r, hnext, htake, rfl, rfl⟩ := step_api hstep
  have hcreated := created_of_orderly ho
  have hsame : apiNext s.toWorld t c (s.world.api t) = apiNext s.world t c (s.world.api t) :=
    apiNext_same s.world s.toWorld rfl rfl rfl h.exited _
  constructor
  · rw [step_of_apiNext (hsame.trans hnext) htake]
    cases hspawn : r.spawn with
    | false => simp only [toWorld, World.applyApi, hspawn]; rfl
    | true =>
      simp only [toWorld, World.applyApi, hspawn, if_true, toWorld_update hcreated]
  · intro n p hp
    obtain ⟨remaining, hpc⟩ := h n p hp
    refine ⟨remaining, ?_⟩
    have hne : n ≠ s.world.created := by
      rintro rfl
      rw [hcreated] at hp
      cases hp
    rwa [applyApi_workers_ne hne]

theorem Waits.call {call : Call} (h : s.Waits)
    (hstep : step config s.world (.call t call) = some (w', l)) :
    step config s.toWorld (.call t call) =
        some (({ s with world := w' } : WindowsWorld D).toWorld, l) ∧
      ({ s with world := w' } : WindowsWorld D).Waits := by
  simp only [step] at hstep
  split at hstep
  · rename_i hidle
    split at hstep <;> cases hstep
    rename_i hmay
    have hidle' : s.toWorld.api t = .idle := hidle
    refine ⟨?_, h⟩
    simp only [step, hidle', h.mayCall t, hmay, if_true]
    rfl
  · cases hstep

theorem Waits.run (h : s.Waits) (hn : s.receive n = none)
    (hstep : step config s.world (.run n c) = some (w', l)) :
    step config s.toWorld (.run n c) =
        some (({ s with world := w' } : WindowsWorld D).toWorld, l) ∧
      ({ s with world := w' } : WindowsWorld D).Waits := by
  obtain ⟨r, hnext, htake, rfl, rfl⟩ := step_run hstep
  have hsame : runNext config s.toWorld n c (s.world.workers n) (s.world.workers n).pc =
      runNext config s.world n c (s.world.workers n) (s.world.workers n).pc :=
    runNext_same s.world s.toWorld rfl rfl rfl rfl _ _
  constructor
  · simp only [step, toWorld_of_none hn, hsame, hnext]
    refine (if_pos htake).trans ?_
    simp only [World.applyRun, toWorld_of_none hn, ← toWorld_update hn]
    rfl
  · intro k p hp
    obtain ⟨remaining, hpc⟩ := h k p hp
    refine ⟨remaining, ?_⟩
    have hne : k ≠ n := by
      rintro rfl
      rw [hn] at hp
      cases hp
    rwa [World.applyRun_workers, Function.update_of_ne hne]

end WindowsWorld

theorem run_of_step {a : Action D} (h : step config w a = some (w', l)) :
    (machine config).Run w l w' := .single h

/-- A step of a worker that takes no mutex and changes nothing but its position. -/
theorem run_setPc {q q' : SessionPc D} (hpc : (w.workers n).pc = .session q)
    (hnext : sessionNext config w n c (w.workers n) q =
      some { impl := w.impl, worker := { w.workers n with pc := .session q' } })
    (hneeds : q.needs = []) (hheld : q.held = []) (hheld' : q'.held = []) :
    (machine config).Run w [] (w.setPc n (.session q')) := by
  refine .single (a := .run n c) ?_
  simp only [machine, step, hpc, runNext, hnext, RunPc.needs, RunPc.held, hneeds, hheld, hheld',
    List.append_nil, canTake, List.all_nil, if_true]
  congr 2
  simp only [World.applyRun, World.setPc, hpc, RunPc.held, hheld, hheld']
  congr 1

namespace WindowsWorld

omit [DecidableEq D] [Double D] in
theorem apply_toWorld (s : WindowsWorld D) (n : Nat) (r : ReceiveNext) :
    (s.apply n r).toWorld = s.toWorld.setPc n (.session r.position) := by
  have hworkers : (s.apply n r).toWorld.workers =
      (s.toWorld.setPc n (.session r.position)).workers := by
    funext k
    by_cases hk : k = n
    · subst hk
      cases r <;> cases hp : s.receive k <;>
        simp [apply, toWorld, World.setPc, ReceiveNext.position, hp]
    · cases r <;> cases hp : s.receive k <;>
        simp [apply, toWorld, World.setPc, hk, hp]
  cases r <;> exact congrArg (fun workers => { s.toWorld with workers }) hworkers

omit [DecidableEq D] [Double D] in
theorem setPc_same {p : RunPc D} (h : (w.workers n).pc = p) : w.setPc n p = w := by
  subst h
  simp [World.setPc]

/-- What a step in `receive` does, the client does in one step or none. -/
theorem run_receiveNext {r : ReceiveNext} (hpc : (w.workers n).pc = .session p.position)
    (hnext : receiveNext w.impl.transport w.clock c p = some r) :
    (machine config).Run w [] (w.setPc n (.session r.position)) := by
  have hstays : (r.position : SessionPc D) = p.position →
      (machine config).Run w [] (w.setPc n (.session r.position)) := by
    intro h
    rw [setPc_same (hpc.trans (congrArg RunPc.session h.symm))]
    exact .refl
  cases p with
  | check deadline =>
    simp only [receiveNext] at hnext
    split at hnext <;> cases hnext
    · exact run_setPc (c := .expires) hpc rfl rfl rfl rfl
    · exact hstays rfl
  | now deadline => cases hnext; exact hstays rfl
  | poll deadline since milliseconds =>
    cases c with
    | succeeds => cases hnext; exact run_setPc (c := .succeeds) hpc rfl rfl rfl rfl
    | expires =>
      simp only [receiveNext] at hnext
      split at hnext <;> cases hnext
      · exact run_setPc (c := .expires) hpc rfl rfl rfl rfl
      · exact hstays rfl
    | interrupted => cases hnext; exact run_setPc (c := .expires) hpc rfl rfl rfl rfl
    | fails message => cases hnext; exact run_setPc (c := .fails message) hpc rfl rfl rfl rfl
    | _ => cases hnext
  | ready =>
    simp only [receiveNext] at hnext
    have hcheck : sessionNext config w n .go (w.workers n) .pollCheck = some
        { impl := w.impl, worker := { w.workers n with
          pc := .session (if w.impl.transport.shutdownRequested then .received [] else .recv) } } :=
      rfl
    split at hnext <;> cases hnext <;> rename_i hshutdown
    · rw [if_pos hshutdown] at hcheck
      exact run_setPc hpc hcheck rfl rfl rfl
    · rw [if_neg hshutdown] at hcheck
      exact run_setPc hpc hcheck rfl rfl rfl
  | revents =>
    cases c with
    | succeeds => cases hnext; exact hstays rfl
    | fails message => cases hnext; exact run_setPc (c := .fails message) hpc rfl rfl rfl rfl
    | _ => cases hnext
  | recv =>
    cases c with
    | datagram bytes => cases hnext; exact run_setPc (c := .datagram bytes) hpc rfl rfl rfl rfl
    | interrupted | fails => cases hnext; exact hstays rfl
    | _ => cases hnext
  | failed interrupted message =>
    simp only [receiveNext] at hnext
    split at hnext <;> cases hnext
    · exact run_setPc (c := .interrupted) hpc rfl rfl rfl rfl
    · exact run_setPc (c := .fails message) hpc rfl rfl rfl rfl

/-- The first section is that of the client. -/
theorem run_receiveFirst {remaining : Nat}
    (hpc : (w.workers n).pc = .session (.receive remaining)) :
    (machine config).Run w []
      (w.setPc n (.session (receiveFirst w.impl.transport w.clock remaining).position)) := by
  have hnext : ∀ q, (receiveFirst w.impl.transport w.clock remaining).position = q →
      sessionNext config w n .go (w.workers n) (.receive remaining) =
        some { impl := w.impl, worker := { w.workers n with pc := .session q } } := by
    rintro q rfl
    simp only [sessionNext, receiveFirst]
    (repeat' split) <;> rfl
  refine run_setPc hpc (hnext _ rfl) rfl rfl ?_
  simp only [receiveFirst]
  (repeat' split) <;> rfl

omit [DecidableEq D] [Double D] in
/-- A worker that goes on in `receive` has been called as before. -/
theorem Waits.apply (h : s.Waits) (hpc : ∃ remaining,
    (s.world.workers n).pc = .session (.receive remaining)) (r : ReceiveNext) :
    (s.apply n r).Waits := by
  intro k p hp
  by_cases hk : k = n
  · subst hk
    cases r with
    | goes q => exact hpc
    | returns | throws => simp [WindowsWorld.apply] at hp
  · cases r <;> simp only [WindowsWorld.apply, Function.update_of_ne hk] at hp <;>
      obtain ⟨remaining, hpc⟩ := h k p hp <;>
      exact ⟨remaining, by simpa [WindowsWorld.apply, World.setPc, hk] using hpc⟩

/-- One step of the client on Windows. -/
theorem windowsStep_simulated {a : Action D} (h : s.Waits) (ho : Orderly s.toWorld)
    (hstep : windowsStep config s a = some (s', l)) :
    (machine config).Run s.toWorld l s'.toWorld ∧ s'.Waits := by
  cases a with
  | tick ticks => cases hstep; exact ⟨.single (a := .tick ticks) rfl, h⟩
  | spurious t => cases hstep; exact ⟨.single (a := .spurious t) rfl, h⟩
  | call t call =>
    obtain ⟨⟨w', l'⟩, hstep₁, heq⟩ := Option.map_eq_some_iff.mp hstep
    cases heq
    obtain ⟨hstep', hwaits⟩ := h.call hstep₁
    exact ⟨run_of_step hstep', hwaits⟩
  | api t c =>
    obtain ⟨⟨w', l'⟩, hstep₁, heq⟩ := Option.map_eq_some_iff.mp hstep
    cases heq
    obtain ⟨hstep', hwaits⟩ := h.api ho hstep₁
    exact ⟨run_of_step hstep', hwaits⟩
  | run n c =>
    simp only [windowsStep] at hstep
    split at hstep
    · rename_i p hp
      obtain ⟨r, hnext, heq⟩ := Option.map_eq_some_iff.mp hstep
      cases heq
      obtain ⟨remaining, hpc⟩ := h n p hp
      refine ⟨?_, h.apply ⟨remaining, hpc⟩ r⟩
      rw [apply_toWorld]
      exact run_receiveNext (by rw [toWorld_of_some hp]) hnext
    · rename_i hp
      split at hstep
      · rename_i remaining hpc
        cases hstep
        refine ⟨?_, h.apply ⟨remaining, hpc⟩ _⟩
        rw [apply_toWorld]
        exact run_receiveFirst (by rw [toWorld_of_none hp, hpc])
      · obtain ⟨⟨w', l'⟩, hstep₁, heq⟩ := Option.map_eq_some_iff.mp hstep
        cases heq
        obtain ⟨hstep', hwaits⟩ := h.run hp hstep₁
        exact ⟨run_of_step hstep', hwaits⟩

/-- The client simulates the client on Windows. -/
theorem simulates : (machine config).Simulates (windowsMachine config) fun s w =>
    s.Waits ∧ w = s.toWorld ∧ ∃ l, Reachable config w l := by
  rintro s w a s' l ⟨hwaits, rfl, k, hv⟩ hstep
  obtain ⟨hrun, hwaits'⟩ := windowsStep_simulated hwaits hv.orderly hstep
  exact ⟨_, hrun, hwaits', rfl, _, hv.run hrun⟩

theorem waits_of_run {clock : TimePoint}
    (h : (windowsMachine config).Run { world := World.initial clock } l s) :
    s.Waits ∧ Reachable config s.toWorld l := by
  have hwaits : ({ world := World.initial clock } : WindowsWorld D).Waits := by simp [Waits]
  obtain ⟨w, hrun, hwaits', rfl, -⟩ := simulates.run ⟨hwaits, rfl, [], clock, .refl⟩ h
  exact ⟨hwaits', clock, hrun⟩

end WindowsWorld

/-- In every run of the client on Windows its events are a history of the client, in a state with
the same members, mutexes and positions, but for the workers in `receive`. -/
theorem windows_simulated {clock : TimePoint}
    (h : (windowsMachine config).Run { world := World.initial clock } l s) :
    ∃ w, Reachable config w l ∧ w.impl = s.world.impl ∧ w.locks = s.world.locks ∧
      w.clock = s.world.clock ∧ w.api = s.world.api ∧
      ∀ n, w.workers n = s.world.workers n ∨ ∃ p remaining, s.receive n = some p ∧
        (s.world.workers n).pc = .session (.receive remaining) ∧
        w.workers n = { s.world.workers n with pc := .session p.position } := by
  obtain ⟨hwaits, hreachable⟩ := WindowsWorld.waits_of_run h
  refine ⟨s.toWorld, hreachable, rfl, rfl, rfl, rfl, fun n => ?_⟩
  rcases hwaits.pc n with hp | ⟨p, remaining, hp, hpc, -⟩
  · exact .inl (WindowsWorld.toWorld_of_none hp)
  · exact .inr ⟨p, remaining, hp, hpc, WindowsWorld.toWorld_of_some hp⟩

end

/-- A worker that opens a session and receives, up to its second `WSAPoll`. -/
def sliceActions : List (Action Rat) :=
  startActions (.client 0) ++ openActions 0 ++ List.replicate 5 (.run 0 .go) ++
    [.tick (50 * ticksPerMillisecond), .run 0 .expires, .run 0 .go, .run 0 .go]

def slicedClient : WindowsWorld Rat × List (Event Rat) :=
  (windowsMachine (demoConfig .failStop)).perform { world := World.initial 1 } sliceActions

theorem windows_simulated_slicedClient :
    slicedClient.1.receive 0 = some (.poll (1000 * ticksPerMillisecond + 1)
        (50 * ticksPerMillisecond + 1) 50) ∧
      ∃ w, Reachable (demoConfig .failStop) w slicedClient.2 ∧
        w.clock = 50 * ticksPerMillisecond + 1 := by
  have h : (windowsMachine (demoConfig .failStop)).Run { world := World.initial 1 } slicedClient.2
      slicedClient.1 := Machine.run_perform (by decide +kernel)
  have hclock : slicedClient.1.world.clock = 50 * ticksPerMillisecond + 1 := by decide +kernel
  obtain ⟨w, hreachable, -, -, hsame, -⟩ := windows_simulated h
  exact ⟨by decide +kernel, w, hreachable, hsame.trans hclock⟩

end NetFT.Client
