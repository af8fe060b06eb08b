import NetFT.Client.Commands
import NetFT.Client.Lifetime
import NetFT.Client.Transport

/-! The client on top of the socket interface. A `Process` is a client together with the
descriptors behind its transport: every step of the client carries out the operation of the
transport that the step executes, against any answers of the resolver and the kernel, until the
client is destroyed. The descriptors that are open are those that the transport holds. -/

namespace NetFT.Client
open Detail Library

variable {D : Type}

/-- The operation of the transport that a step executes. `receive` is split where it takes the
lock, waits and reads. -/
inductive Operation (D : Type)
  | nothing
  | connect (c : Choice D)
  | send
  | receive (n : Nat)
  | poll (n : Nat)
  | recv (n : Nat)
  | shutdown
  | close

def RunPc.operation (started : Bool) (n : Nat) (c : Choice D) : RunPc D → Operation D
  | .session .connect => .connect c
  | .session .sendStart => .send
  | .session (.receive _) => .receive n
  | .session (.poll _) => .poll n
  | .session .recv => .recv n
  | .close _ => if started then .send else .nothing
  | .closeTransport _ => .close
  | _ => .nothing

def ApiPc.operation (started : Bool) : ApiPc D → Operation D
  | .stop .command => if started then .send else .nothing
  | .stop .shutdown => .shutdown
  | .bias .bias | .bias .restart => .send
  | _ => .nothing

def World.operation (w : World D) : Action D → Operation D
  | .run n c => (w.workers n).pc.operation w.impl.sessionStarted n c
  | .api t _ => (w.api t).operation w.impl.sessionStarted
  | _ => .nothing

/-- Between the moment `receive` has read the descriptor and its last use. -/
def RunPc.inReceive : RunPc D → Bool
  | .session (.poll _) | .session .pollCheck | .session .recv => true
  | _ => false

structure Process (D : Type) where
  world : World D
  events : List (Event D) := []
  transport : UdpTransport := {}
  /-- The descriptor that `receive` has read, on each worker. -/
  copied : Nat → Option Nat := fun _ => none
  calls : List SocketCall := []
  destroyed : Bool := false

namespace Process

/-- The call of `connect` ends as the client's step assumes. -/
def agrees (error : Option String) : Operation D → Bool
  | .connect .succeeds => error = none
  | .connect (.fails message) => error = some message
  | .connect _ => false
  | _ => true

def perform (strerror : Nat → String) (resolution : Resolution) (s : Process D) :
    Operation D → Performed
  | .nothing | .receive _ => { transport := s.transport }
  | .connect _ => s.transport.connect strerror resolution
  | .send => s.transport.send
  | .poll n => { transport := s.transport, calls := (s.copied n).toList.map .poll }
  | .recv n => { transport := s.transport, calls := (s.copied n).toList.map .recv }
  | .shutdown => s.transport.shutdown
  | .close => s.transport.close

def copy (s : Process D) : Operation D → Nat → Option Nat
  | .receive n =>
    if s.transport.socket = none || s.transport.shutdownRequested then s.copied
    else Function.update s.copied n s.transport.socket
  | _ => s.copied

section
variable [DecidableEq D] [Double D]

def next (strerror : Nat → String) (config : Config D) (s : Process D) (a : Action D)
    (resolution : Resolution) : Option (Process D) :=
  match step config s.world a with
  | none => none
  | some (w', l) =>
    let operation := s.world.operation a
    let r := s.perform strerror resolution operation
    -- the kernel hands out a descriptor only while it is not open
    if s.destroyed = false ∧ agrees r.error operation = true ∧
        HandleOp.Granted ∅ (ops (s.calls ++ r.calls)) then
      some { s with
        world := w'
        events := s.events ++ l
        transport := r.transport
        copied := s.copy operation
        calls := s.calls ++ r.calls }
    else none

/-- The end of `~Impl` on thread `t`: a call of `stop` has returned that no `start` overlapped,
nor was one entered since, and `~UdpTransport` is executed. -/
structure Destroys (config : Config D) (s s' : Process D) : Prop where
  live : s.destroyed = false
  stopped : ∃ t w₀ l₀ l₁, (∀ n, t ≠ .worker n) ∧ StopReturned config t w₀ l₀ ∧
    (machine config).Run w₀ l₁ s.world ∧ NoStartEntered l₁ ∧ s.events = l₀ ++ l₁
  closes : s' = { s with
    transport := s.transport.close.transport
    calls := s.calls ++ s.transport.close.calls
    destroyed := true }

inductive Step (strerror : Nat → String) (config : Config D) (s s' : Process D) : Prop
  | client (a : Action D) (resolution : Resolution)
    (hnext : s.next strerror config a resolution = some s')
  | destroy (hdestroy : Destroys config s s')

inductive Reaches (strerror : Nat → String) (config : Config D) : Process D → Prop
  | initial (clock : TimePoint) : Reaches strerror config { world := World.initial clock }
  | step : Reaches strerror config s → Step strerror config s s' → Reaches strerror config s'

end

end Process

/-! ## The transport of the client -/

variable {config : Config D} {w w' : World D} {t : Tid} {n : Nat} {c : Choice D}
  {worker : Worker D} {l l' : List (Event D)}

theorem afterRecord_inReceive {i : Impl D} {outcome : Option SessionResult}
    {events : List (Event D)} :
    (afterRecord i worker n outcome events).worker.pc.inReceive = false := by
  cases outcome <;> rfl

theorem recordNext_inReceive [Double D] {p : RecordPc D} {r : RunNext D}
    (hnext : recordNext config w n c worker p = some r) : r.worker.pc.inReceive = false := by
  cases p with
  | account record receivedAt rdt ft =>
    simp only [recordNext] at hnext
    split at hnext
    · cases hnext; rfl
    · split at hnext <;> cases hnext
      · exact afterRecord_inReceive
      · rfl
  | callbackFailed | notifyLifecycle => cases hnext; exact afterRecord_inReceive
  | _ =>
    simp only [recordNext] at hnext
    (repeat' split at hnext) <;> cases hnext <;> rfl

theorem applyConfiguration_transport [DecidableEq D] {i : Impl D}
    {configuration : SensorConfiguration D} :
    (i.applyConfiguration configuration).transport = i.transport := by
  unfold Impl.applyConfiguration
  split
  · split <;> rfl
  · rfl

section
variable [DecidableEq D] [Double D] {r : RunNext D}

theorem runNext_transport {p : RunPc D} (hnext : runNext config w n c worker p = some r) :
    (r.impl.transport = w.impl.transport ∧ (∀ context, p ≠ .closeTransport context) ∧
        (p = .session .connect → ∃ message, c = .fails message)) ∨
      (p = .session .connect ∧ c = .succeeds ∧ r.impl = w.impl.connectTransport w.nextSocket) ∨
      (∃ context, p = .closeTransport context) ∧ r.impl = w.impl.closeTransport := by
  cases p with
  | session q =>
    cases q with
    | record q =>
      exact .inl ⟨recordNext_transport hnext, (by simp), (by simp)⟩
    | connect =>
      simp only [runNext, sessionNext] at hnext
      split at hnext <;> cases hnext
      · exact .inr (.inl ⟨rfl, rfl, rfl⟩)
      · exact .inl ⟨rfl, (fun _ h => by cases h), fun _ => ⟨_, rfl⟩⟩
    | apply configuration => cases hnext; exact .inl ⟨applyConfiguration_transport, (by simp), (by simp)⟩
    | _ =>
      refine .inl ⟨?_, by simp, by simp⟩
      simp only [runNext, sessionNext] at hnext
      (repeat' split at hnext) <;> cases hnext <;> rfl
  | closeTransport context => cases hnext; exact .inr (.inr ⟨⟨context, rfl⟩, rfl⟩)
  | publish code message =>
    refine .inl ⟨?_, by simp, by simp⟩
    cases hnext
    simp only [Impl.publish]
    split <;> rfl
  | _ =>
    refine .inl ⟨?_, by simp, by simp⟩
    simp only [runNext] at hnext
    (repeat' split at hnext) <;> cases hnext <;> rfl

/-- `receive` reads the descriptor only if there is one and it was not shut down. -/
theorem runNext_inReceive {p : RunPc D} (hnext : runNext config w n c worker p = some r)
    (h : r.worker.pc.inReceive = true) : p.inReceive = true ∨
      (∃ remaining, p = .session (.receive remaining)) ∧ w.impl.transport.socket ≠ none ∧
        w.impl.transport.shutdownRequested = false := by
  cases p with
  | session q =>
    cases q with
    | record q => rw [recordNext_inReceive hnext] at h; cases h
    | poll | pollCheck | recv => exact .inl rfl
    | receive remaining =>
      simp only [runNext, sessionNext] at hnext
      (repeat' split at hnext) <;> cases hnext <;> try cases h
      exact .inr ⟨⟨remaining, rfl⟩, ‹_›, by simpa using ‹¬ w.impl.transport.shutdownRequested = true›⟩
    | _ =>
      simp only [runNext, sessionNext] at hnext
      (repeat' split at hnext) <;> cases hnext <;> cases h
  | closeTransport context => cases hnext; cases context <;> cases h
  | raised | finalFaulted =>
    cases hnext
    dsimp only at h
    split at h <;> cases h
  | _ =>
    simp only [runNext] at hnext
    (repeat' split at hnext) <;> cases hnext <;> cases h

end

theorem executing_of_inReceive (h : (w.workers n).pc.inReceive = true) : w.executing n := by
  unfold World.executing
  cases hpc : (w.workers n).pc with
  | session q => rfl
  | _ => simp [hpc, RunPc.inReceive] at h

/-- An entry point neither connects nor receives nor closes. -/
theorem ApiPc.operation_cases (p : ApiPc D) (started : Bool) :
    p.operation started = .nothing ∨ p.operation started = .send ∨
      p.operation started = .shutdown := by
  cases p with
  | stop q =>
    cases q with
    | command => cases started <;> simp [operation]
    | _ => simp [operation]
  | bias q => cases q <;> simp [operation]
  | _ => simp [operation]

/-- Only a worker in `receive` waits or reads. -/
theorem inReceive_of_operation {a : Action D}
    (h : w.operation a = .poll n ∨ w.operation a = .recv n) :
    (w.workers n).pc.inReceive = true := by
  cases a with
  | run k c =>
    simp only [World.operation] at h
    cases hpc : (w.workers k).pc with
    | session q =>
      rw [hpc] at h
      cases q with
      | poll | recv =>
        obtain rfl : k = n := by simpa [RunPc.operation] using h
        rw [hpc]
        rfl
      | _ => simp [RunPc.operation] at h
    | close context =>
      simp only [hpc, RunPc.operation] at h
      split at h <;> simp at h
    | _ => simp [hpc, RunPc.operation] at h
  | api t c =>
    rcases (w.api t).operation_cases w.impl.sessionStarted with hop | hop | hop <;>
      simp [World.operation, hop] at h
  | _ => simp [World.operation] at h

/-! ## The operations -/

/-- The transport of the process is the one that the client assumes, up to the numbers of the
descriptors. -/
structure Matches (transport assumed : UdpTransport) : Prop where
  socket : transport.socket = none ↔ assumed.socket = none
  flag : transport.shutdownRequested = assumed.shutdownRequested

section
variable {strerror : Nat → String} {resolution : Resolution} {s : Process D}

namespace Process

theorem perform_transport {operation : Operation D}
    (hagrees : agrees (s.perform strerror resolution operation).error operation = true)
    (hclose : operation ≠ .close) (hshutdown : operation ≠ .shutdown)
    (hconnect : operation ≠ .connect .succeeds) :
    (s.perform strerror resolution operation).transport = s.transport := by
  cases operation with
  | close => exact absurd rfl hclose
  | shutdown => exact absurd rfl hshutdown
  | connect c =>
    refine UdpTransport.connect_throws fun hnone => ?_
    cases c with
    | succeeds => exact hconnect rfl
    | fails message =>
      rw [agrees, decide_eq_true_eq, perform, hnone] at hagrees
      cases hagrees
    | _ => cases hagrees
  | send =>
    simp only [perform, UdpTransport.send]
    split <;> rfl
  | _ => rfl

theorem perform_keeps {operation : Operation D}
    (hcopied : ∀ n, operation = .poll n ∨ operation = .recv n → s.copied n = s.transport.socket)
    (hg : HandleOp.Granted s.transport.descriptors
      (ops (s.perform strerror resolution operation).calls)) :
    (s.perform strerror resolution operation).Keeps s.transport := by
  cases operation with
  | nothing | receive => exact ⟨trivial, rfl⟩
  | connect c => exact UdpTransport.connect_keeps hg
  | send => exact UdpTransport.send_keeps
  | shutdown => exact UdpTransport.shutdown_keeps
  | close => exact UdpTransport.close_keeps
  | poll n | recv n =>
    have hcopy := hcopied n (by simp)
    constructor <;> cases hs : s.transport.socket <;>
      simp [perform, hcopy, hs, ops, HandleOp.Lawful, SocketCall.op, UdpTransport.descriptors,
        HandleOp.held_cons, HandleOp.advance]

end Process

end

section
variable [DecidableEq D] [Double D] {strerror : Nat → String} {resolution : Resolution}
  {s s' : Process D} {a : Action D}

/-- What a step of the client in a process is. -/
theorem Process.next_some (h : s.next strerror config a resolution = some s') :
    ∃ w' l, step config s.world a = some (w', l) ∧ s.destroyed = false ∧
      agrees (s.perform strerror resolution (s.world.operation a)).error (s.world.operation a) =
        true ∧
      HandleOp.Granted ∅
        (ops (s.calls ++ (s.perform strerror resolution (s.world.operation a)).calls)) ∧
      s' = { s with
        world := w'
        events := s.events ++ l
        transport := (s.perform strerror resolution (s.world.operation a)).transport
        copied := s.copy (s.world.operation a)
        calls := s.calls ++ (s.perform strerror resolution (s.world.operation a)).calls } := by
  unfold next at h
  split at h
  · cases h
  · rename_i w' l hstep
    dsimp only at h
    split at h
    · rename_i hcond
      cases h
      exact ⟨w', l, hstep, hcond.1, hcond.2.1, hcond.2.2, rfl⟩
    · cases h

/-- What a step of the client does with the transport it assumes. -/
theorem step_transport (hstep : step config w a = some (w', l)) :
    (w.operation a = .connect .succeeds ∧
        w'.impl.transport = { socket := some w.nextSocket, shutdownRequested := false }) ∨
      (w.operation a = .close ∧
        w'.impl.transport = { socket := none, shutdownRequested := true }) ∨
      (w.operation a = .shutdown ∧
        w'.impl.transport = { w.impl.transport with shutdownRequested := true }) ∨
      w.operation a ≠ .connect .succeeds ∧ w.operation a ≠ .close ∧ w.operation a ≠ .shutdown ∧
        w'.impl.transport = w.impl.transport := by
  cases a with
  | tick | spurious =>
    cases hstep
    exact .inr (.inr (.inr ⟨(fun h => by cases h), (fun h => by cases h), (fun h => by cases h), rfl⟩))
  | call t call =>
    simp only [step] at hstep
    (repeat' split at hstep) <;> cases hstep
    exact .inr (.inr (.inr ⟨(fun h => by cases h), (fun h => by cases h), (fun h => by cases h), rfl⟩))
  | api t c =>
    obtain ⟨r, hnext, -, rfl, -⟩ := step_api hstep
    rcases apiNext_transport hnext with ⟨hsame, hne⟩ | ⟨hpc, himpl⟩
    · refine .inr (.inr (.inr ?_))
      simp only [World.operation]
      cases hpc : w.api t with
      | stop q =>
        cases q with
        | shutdown => exact absurd hpc hne
        | command =>
          simp only [ApiPc.operation]
          split <;> refine ⟨?_, ?_, ?_, hsame⟩ <;> intro h <;> cases h
        | _ => refine ⟨?_, ?_, ?_, hsame⟩ <;> intro h <;> cases h
      | bias q => cases q <;> refine ⟨?_, ?_, ?_, hsame⟩ <;> intro h <;> cases h
      | _ => refine ⟨?_, ?_, ?_, hsame⟩ <;> intro h <;> cases h
    · refine .inr (.inr (.inl ⟨by rw [World.operation, hpc]; rfl, ?_⟩))
      rw [World.applyApi_impl, himpl]
      rfl
  | run n c =>
    obtain ⟨r, hnext, -, rfl, -⟩ := step_run hstep
    rcases runNext_transport hnext with ⟨hsame, hclose, hconnect⟩ | ⟨hpc, rfl, himpl⟩ |
      ⟨⟨context, hpc⟩, himpl⟩
    · refine .inr (.inr (.inr ?_))
      simp only [World.operation]
      cases hpc : (w.workers n).pc with
      | session q =>
        cases q with
        | connect =>
          obtain ⟨message, rfl⟩ := hconnect hpc
          refine ⟨by simp [RunPc.operation], ?_, ?_, hsame⟩ <;> intro h <;> cases h
        | _ => refine ⟨?_, ?_, ?_, hsame⟩ <;> intro h <;> cases h
      | close context =>
        simp only [RunPc.operation]
        split <;> refine ⟨?_, ?_, ?_, hsame⟩ <;> intro h <;> cases h
      | closeTransport context => exact absurd hpc (hclose context)
      | _ => refine ⟨?_, ?_, ?_, hsame⟩ <;> intro h <;> cases h
    · refine .inl ⟨by rw [World.operation, hpc]; rfl, ?_⟩
      rw [World.applyRun_impl, himpl]
      rfl
    · refine .inr (.inl ⟨by rw [World.operation, hpc]; rfl, ?_⟩)
      rw [World.applyRun_impl, himpl]
      rfl

/-- The client and the process agree on the transport after a step if they did before. -/
theorem Matches.step (h : Matches s.transport s.world.impl.transport)
    (hstep : step config s.world a = some (w', l))
    (hagrees : Process.agrees (s.perform strerror resolution (s.world.operation a)).error
      (s.world.operation a) = true) :
    Matches (s.perform strerror resolution (s.world.operation a)).transport w'.impl.transport := by
  rcases step_transport hstep with ⟨hop, heq⟩ | ⟨hop, heq⟩ | ⟨hop, heq⟩ | ⟨hconnect, hclose, hshut, heq⟩
  · rw [hop, Process.agrees, decide_eq_true_eq] at hagrees
    obtain ⟨-, fd, -, -, htransport⟩ := UdpTransport.connect_returns hagrees
    rw [hop, heq, Process.perform, htransport]
    exact ⟨by simp, rfl⟩
  · rw [hop, heq]
    exact ⟨by simp [Process.perform, UdpTransport.close], rfl⟩
  · rw [hop, heq]
    exact ⟨h.socket, rfl⟩
  · rw [Process.perform_transport hagrees hclose hshut hconnect, heq]
    exact h

/-! ## Runs -/

/-- The open descriptors are those that the transport holds, and every call was made on an open
one. -/
structure Process.Sound (config : Config D) (s : Process D) : Prop where
  reach : Reachable config s.world s.events
  granted : HandleOp.Granted ∅ (ops s.calls)
  lawful : HandleOp.Lawful ∅ (ops s.calls)
  held : HandleOp.held ∅ (ops s.calls) = s.transport.descriptors
  live : s.destroyed = false → Matches s.transport s.world.impl.transport
  copied : ∀ n, (s.world.workers n).pc.inReceive = true →
    s.copied n = s.transport.socket ∧ s.transport.socket ≠ none
  gone : s.destroyed = true → s.transport.socket = none

theorem Process.Sound.copies (h : s.Sound config) (hlive : s.destroyed = false)
    (hstep : step config s.world a = some (w', l))
    (hagrees : agrees (s.perform strerror resolution (s.world.operation a)).error
      (s.world.operation a) = true) (hn : (w'.workers n).pc.inReceive = true) :
    s.copy (s.world.operation a) n =
        (s.perform strerror resolution (s.world.operation a)).transport.socket ∧
      (s.perform strerror resolution (s.world.operation a)).transport.socket ≠ none := by
  have ho := h.reach.orderly
  cases a with
  | tick | spurious => cases hstep; exact h.copied n hn
  | call t call =>
    simp only [NetFT.Client.step] at hstep
    (repeat' split at hstep) <;> cases hstep
    exact h.copied n hn
  | api t c =>
    obtain ⟨r, hnext, -, rfl, -⟩ := step_api hstep
    rcases ho.applyApi_worker config t r n with hsame | ⟨-, htop⟩
    · rw [hsame] at hn
      rcases (s.world.api t).operation_cases s.world.impl.sessionStarted with hop | hop | hop
      · rw [World.operation, hop]
        exact h.copied n hn
      · rw [World.operation, hop] at hagrees ⊢
        rw [perform_transport hagrees (fun h => by cases h) (fun h => by cases h) (fun h => by cases h)]
        exact h.copied n hn
      · rw [World.operation, hop]
        exact h.copied n hn
    · rw [htop] at hn
      cases hn
  | run k c =>
    obtain ⟨r, hnext, -, rfl, -⟩ := step_run hstep
    have hexec := executing_of_next hnext
    obtain rfl : n = k := by
      by_contra hne
      rw [World.applyRun_workers, Function.update_of_ne hne] at hn
      exact hne (ho.executing_unique hexec (executing_of_inReceive hn))
    rw [World.applyRun_workers, Function.update_self] at hn
    rcases runNext_inReceive hnext hn with hreceiving | ⟨⟨remaining, hpc⟩, hsocket, hflag⟩
    · have hcopied := h.copied n hreceiving
      simp only [World.operation]
      cases hpc : (s.world.workers n).pc with
      | session q => cases q <;> simp_all [RunPc.inReceive] <;> exact hcopied
      | _ => simp [hpc, RunPc.inReceive] at hreceiving
    · have hmatch := h.live hlive
      have hsome : s.transport.socket ≠ none := fun hnone => hsocket (hmatch.socket.mp hnone)
      have hopen : s.transport.shutdownRequested = false := hmatch.flag.trans hflag
      simp [World.operation, hpc, RunPc.operation, copy, perform, hsome, hopen]

theorem Process.Sound.client (h : s.Sound config)
    (hnext : s.next strerror config a resolution = some s') : s'.Sound config := by
  obtain ⟨w', l, hstep, hlive, hagrees, hg, rfl⟩ := Process.next_some hnext
  have hmatch := (h.live hlive).step hstep hagrees
  have hg' := hg
  rw [ops_append, HandleOp.granted_append, h.held] at hg'
  have hkeeps := Process.perform_keeps (fun n hop =>
    (h.copied n (inReceive_of_operation hop)).1) hg'.2
  refine ⟨h.reach.step hstep, hg, ?_, ?_, fun _ => hmatch, ?_, fun hgone => ?_⟩
  · rw [ops_append, HandleOp.lawful_append, h.held]
    exact ⟨h.lawful, hkeeps.lawful⟩
  · rw [ops_append, HandleOp.held_append, h.held]
    exact hkeeps.held
  · exact fun n hn => h.copies hlive hstep hagrees hn
  · rw [hlive] at hgone
    cases hgone

/-- When the client is destroyed, no worker executes and the transport holds no descriptor. -/
theorem Process.Sound.stopped (h : s.Sound config) (hd : Destroys config s s') :
    (∀ n, ¬ s.world.executing n) ∧ s.transport.socket = none := by
  obtain ⟨t, w₀, l₀, l₁, ht, hstop, hrun, hl₁, -⟩ := hd.stopped
  obtain ⟨hreach, hn, hu, -⟩ := hstop.noStart_unmanned_halted ht
  have hu' := (unmanned_run hreach hn hu hrun hl₁).2.1
  have hnone := h.reach.orderly.life.not_executing hu'.1 hu'.2
  have hshut := h.reach.shut.closed fun n =>
    shut_of_not_running (by simpa [World.executing] using hnone n)
  exact ⟨hnone, (h.live hd.live).socket.mpr hshut.1⟩

theorem Process.Sound.destroy (h : s.Sound config) (hd : Destroys config s s') :
    s'.Sound config := by
  obtain ⟨hnone, hsocket⟩ := h.stopped hd
  obtain rfl := hd.closes
  have hcalls : s.transport.close.calls = [] := by
    simp [UdpTransport.close, UdpTransport.closeCalls, hsocket]
  simp only [hcalls, List.append_nil]
  refine ⟨h.reach, h.granted, h.lawful, ?_, (fun h => by cases h), fun n hn => ?_, fun _ => rfl⟩
  · rw [h.held, UdpTransport.descriptors, hsocket]
    rfl
  · exact absurd (executing_of_inReceive hn) (hnone n)

theorem Process.Reaches.sound (h : Reaches strerror config s) : s.Sound config := by
  induction h with
  | initial clock =>
    refine ⟨⟨clock, .refl⟩, trivial, trivial, rfl, fun _ => ⟨Iff.rfl, rfl⟩,
      (fun n h => by cases h), fun h => by cases h⟩
  | step _ hstep ih =>
    cases hstep with
    | client a resolution hnext => exact ih.client hnext
    | destroy hdestroy => exact ih.destroy hdestroy

/-- While a worker is inside `receive`, no step closes a descriptor. -/
theorem Process.Sound.no_close (h : s.Sound config) (hn : (s.world.workers n).pc.inReceive = true)
    (hstep : s.Step strerror config s') :
    ∃ calls, s'.calls = s.calls ++ calls ∧ ∀ fd, .close fd ∉ calls := by
  cases hstep with
  | destroy hdestroy => exact absurd (executing_of_inReceive hn) ((h.stopped hdestroy).1 n)
  | client a resolution hnext =>
    obtain ⟨w', l, hstep, -, -, -, rfl⟩ := next_some hnext
    refine ⟨_, rfl, fun fd hmem => ?_⟩
    cases a with
    | tick | call | spurious => simp [World.operation, perform] at hmem
    | api t c =>
      rcases (s.world.api t).operation_cases s.world.impl.sessionStarted with hop | hop | hop
      · simp [World.operation, hop, perform] at hmem
      · simp only [World.operation, hop, perform, UdpTransport.send] at hmem
        split at hmem <;> simp at hmem
      · simp only [World.operation, hop, perform, UdpTransport.shutdown] at hmem
        split at hmem <;> simp at hmem
    | run k c =>
      obtain ⟨r, hnext, -, -, -⟩ := step_run hstep
      obtain rfl := h.reach.orderly.executing_unique (executing_of_next hnext)
        (executing_of_inReceive hn)
      cases hpc : (s.world.workers n).pc with
      | session q =>
        cases q <;> simp_all [RunPc.inReceive, World.operation, RunPc.operation, perform]
      | _ => simp [hpc, RunPc.inReceive] at hn

/-- For all answers of the resolver and the kernel, `connect` either throws and changes nothing or
keeps the descriptor of the first address that connects. In every run of a client, up to its
destruction, a descriptor was opened as often as it was closed, except for the one that the
transport holds; every call, closing included, is made on a descriptor that is open; a destroyed
client holds none; and while `receive` is under way the descriptor it has read is the one the
transport holds, and no step closes any. -/
theorem sockets_disciplined (strerror : Nat → String) (config : Config D) :
    (∀ transport resolution, HandleOp.Granted (UdpTransport.descriptors transport)
        (ops (transport.connect strerror resolution).calls) →
      ((transport.connect strerror resolution).error ≠ none ∧
        (transport.connect strerror resolution).transport = transport ∧
        ∀ fd, HandleOp.released fd (ops (transport.connect strerror resolution).calls) =
          HandleOp.acquired fd (ops (transport.connect strerror resolution).calls)) ∨
      ((transport.connect strerror resolution).error = none ∧
        ∃ before fd after, resolution = .addresses (before ++ .accepted fd :: after) ∧
          (∀ fd', .accepted fd' ∉ before) ∧
          (transport.connect strerror resolution).transport =
            { socket := some fd, shutdownRequested := false } ∧
          ∀ fd', HandleOp.released fd' (ops (transport.connect strerror resolution).calls) +
              (if fd' = fd then 1 else 0) =
            HandleOp.acquired fd' (ops (transport.connect strerror resolution).calls) +
              if transport.socket = some fd' then 1 else 0)) ∧
    ∀ s, Process.Reaches strerror config s →
      (∀ fd, HandleOp.acquired fd (ops s.calls) =
        HandleOp.released fd (ops s.calls) + if s.transport.socket = some fd then 1 else 0) ∧
      (∀ l₁ call l₂ fd, s.calls = l₁ ++ call :: l₂ →
        SocketCall.op call = .use fd ∨ call.op = .release fd →
        HandleOp.acquired fd (ops l₁) = HandleOp.released fd (ops l₁) + 1) ∧
      (s.destroyed = true → s.transport.socket = none) ∧
      ∀ n, (s.world.workers n).pc.inReceive = true →
        s.copied n = s.transport.socket ∧ s.transport.socket ≠ none ∧
        ∀ s', s.Step strerror config s' →
          ∃ calls, s'.calls = s.calls ++ calls ∧ ∀ fd, .close fd ∉ calls := by
  refine ⟨fun transport resolution hg => UdpTransport.connect_law hg, fun s hs => ?_⟩
  have h := hs.sound
  refine ⟨fun fd => ?_, fun l₁ call l₂ fd hcalls hop => ?_, h.gone, fun n hn =>
    ⟨(h.copied n hn).1, (h.copied n hn).2, fun s' hstep => h.no_close hn hstep⟩⟩
  · have hbalance := HandleOp.balance h.granted h.lawful fd
    rw [h.held] at hbalance
    simpa [mem_descriptors] using hbalance
  · have hg := h.granted
    have hl := h.lawful
    rw [hcalls, ops_append] at hg hl
    have hheld := hl.held_at hop
    have hbalance := HandleOp.balance (HandleOp.granted_append.mp hg).1
      (HandleOp.lawful_append.mp hl).1 fd
    simpa [hheld] using hbalance

end

/-! ### A run -/

/-- The actions one after the other, with the same answers of the resolver and the kernel. -/
def Process.exec (strerror : Nat → String) (config : Config Rat) (resolution : Resolution) :
    Process Rat → List (Action Rat) → Option (Process Rat)
  | s, [] => some s
  | s, a :: as =>
    match s.next strerror config a resolution with
    | none => none
    | some s' => s'.exec strerror config resolution as

theorem Process.exec_some {strerror : Nat → String} {config : Config Rat} {resolution : Resolution}
    {s s' : Process Rat} {as : List (Action Rat)}
    (h : s.exec strerror config resolution as = some s') (hs : Reaches strerror config s) :
    Reaches strerror config s' ∧ s'.destroyed = s.destroyed ∧
      ∃ l, (machine config).exec s.world as = some (s'.world, l) ∧ s'.events = s.events ++ l := by
  induction as generalizing s with
  | nil => cases h; exact ⟨hs, rfl, [], rfl, (List.append_nil _).symm⟩
  | cons a as ih =>
    simp only [exec] at h
    split at h
    · cases h
    · rename_i s₁ hnext
      obtain ⟨hreach, hdestroyed, l, hexec, hevents⟩ := ih h (hs.step (.client a resolution hnext))
      obtain ⟨w', l', hstep, -, -, -, rfl⟩ := next_some hnext
      refine ⟨hreach, hdestroyed, l' ++ l, ?_, by rw [hevents, List.append_assoc]⟩
      have hstep : (machine config).step s.world a = some (w', l') := hstep
      rw [Machine.exec, hstep]
      simp only
      rw [hexec]

/-- The second of three addresses refuses the connection, and the third is connected with the
descriptor that was closed before. -/
def thirdAddress : Resolution := .addresses [.noSocket 97, .refused 3 111, .accepted 3]

/-- The session is opened, and another thread stops the client. -/
def stoppedActions : List (Action Rat) :=
  startActions (.client 0) ++ openActions 0 ++ .call (.client 1) .stop ::
    (stopActions (.client 1) ++ List.replicate 11 (.run 0 .go) ++
      List.replicate 6 (.api (.client 1) .go))

theorem exec_stoppedActions :
    (machine (demoConfig .failStop)).exec (World.initial 1) stoppedActions =
      some (stoppedClient.1, stoppedEvents) := by
  have hopen : (machine (demoConfig .failStop)).exec (World.initial 1)
      (startActions (.client 0) ++ openActions 0) =
      some (streamingClient (demoConfig .failStop)) := Machine.exec_eq_perform (by decide +kernel)
  have hcall : (machine (demoConfig .failStop)).exec (streamingClient (demoConfig .failStop)).1
      [.call (.client 1) .stop] = some enteredClient := Machine.exec_eq_perform (by decide +kernel)
  have hjoin : (machine (demoConfig .failStop)).exec enteredClient.1
      (stopActions (.client 1) ++ List.replicate 11 (.run 0 .go) ++
        List.replicate 5 (.api (.client 1) .go)) = some joinedClient :=
    Machine.exec_eq_perform (by decide +kernel)
  have hreturn : (machine (demoConfig .failStop)).exec joinedClient.1 [.api (.client 1) .go] =
      some stoppedClient := Machine.exec_eq_perform (by decide +kernel)
  have hjoined := Machine.exec_append (Machine.exec_append hopen hcall) hjoin
  have hall := Machine.exec_append hjoined hreturn
  exact hall

theorem sockets_disciplined_thirdAddress :
    ∃ s : Process Rat, Process.Reaches (fun _ => "") (demoConfig .failStop) s ∧
      s.destroyed = true ∧
      s.calls = [.socket 3, .connect 3 false, .close 3, .socket 3, .connect 3 true, .send 3,
        .send 3, .shutdown 3, .close 3] ∧
      ∀ fd, HandleOp.acquired fd (ops s.calls) = HandleOp.released fd (ops s.calls) := by
  have hcalls : (({ world := World.initial 1 } : Process Rat).exec (fun _ => "")
      (demoConfig .failStop) thirdAddress stoppedActions).map (·.calls) =
      some [.socket 3, .connect 3 false, .close 3, .socket 3, .connect 3 true, .send 3,
        .send 3, .shutdown 3, .close 3] := by decide +kernel
  obtain ⟨s, hexec, hcalls⟩ := Option.map_eq_some_iff.mp hcalls
  obtain ⟨hreach, hdestroyed, l, hl, hevents⟩ := Process.exec_some hexec (.initial 1)
  obtain ⟨hworld, rfl⟩ := Prod.mk.inj (Option.some.inj (exec_stoppedActions.symm.trans hl))
  have hnone : s.transport.socket = none := by
    by_contra hne
    have hmatch := (hreach.sound.live hdestroyed).socket
    rw [← hworld] at hmatch
    exact hne (hmatch.mpr (by decide +kernel))
  have hclose : s.transport.close.calls = [] := by
    simp [UdpTransport.close, UdpTransport.closeCalls, hnone]
  have hdestroy : Process.Destroys (demoConfig .failStop) s { s with
      transport := s.transport.close.transport
      calls := s.calls ++ s.transport.close.calls
      destroyed := true } :=
    ⟨hdestroyed, ⟨.client 1, stoppedClient.1, stoppedEvents, [], (fun _ h => by cases h),
      stopReturned_stoppedClient,
      hworld ▸ .refl, by simp [NoStartEntered], by rw [hevents, List.append_nil]; rfl⟩, rfl⟩
  have hgone := hreach.step (.destroy hdestroy)
  refine ⟨_, hgone, rfl, by rw [hclose, List.append_nil]; exact hcalls, fun fd => ?_⟩
  exact ((sockets_disciplined _ _).2 _ hgone).1 fd

end NetFT.Client
