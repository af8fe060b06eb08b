import NetFT.Client.Quiescence
import NetFT.Client.Wire

/-! The client keeps to the wire discipline: the monitor of `NetFT.Client.Wire` accepts the
history of every reachable state, and its state is tied to that of the client by `OnWire`. -/

namespace NetFT.Client
open Detail Library

variable {D : Type}

/-! ## Positions -/

/-- Where a worker stands with respect to the command that starts its session. -/
inductive Approach
  /-- The session has begun and its state is not set yet. -/
  | begun
  /-- Before the session connects. -/
  | unconnected
  /-- Connected, before `StartRealtime` is attempted. -/
  | unstarted
  /-- Everywhere else. -/
  | elsewhere
  deriving DecidableEq, Repr

def SessionPc.approach : SessionPc D → Approach
  | .connecting => .begun
  | .checkBeforeDiscovery | .discover | .discoverFailed _ | .apply _ | .checkBeforeConnect
  | .connect => .unconnected
  | .command | .sendStart => .unstarted
  | _ => .elsewhere

def RunPc.approach : RunPc D → Approach
  | .session p => p.approach
  | _ => .elsewhere

/-- The section of `bias` that sends. -/
def ApiPc.biasing : ApiPc D → Bool
  | .bias .bias | .bias .restart | .bias .reset => true
  | _ => false

/-- What the position of a worker says about the monitor and the client. -/
def Approach.Holds (i : Impl D) (m : Wire) : Approach → Prop
  | .begun => m.connected = false ∧ m.stage = .fresh
  | .unconnected => m.connected = false ∧ m.stage = .fresh ∧ i.health.state ≠ .streaming
  | .unstarted => m.stage = .fresh ∧ i.sessionStarted = false ∧ i.transport.socket ≠ none ∧
    i.health.state ≠ .streaming
  | .elsewhere => True

/-- The state of the monitor after the history of a client. -/
structure OnWire (w : World D) (m : Wire) : Prop where
  next : m.next = w.nextSocket
  socket : m.socket = w.impl.transport.socket
  approach : ∀ n, (w.workers n).pc.approach.Holds w.impl m
  notStarted : w.impl.sessionStarted = false → m.stage.complete = true
  started : w.impl.sessionStarted = true → w.impl.transport.socket ≠ none ∧
    ((∀ t, w.api t ≠ .bias .restart) → m.stage = .opened)
  restart : ∀ t, w.api t = .bias .restart → m.stage = .biasing
  biasing : ∀ t, (w.api t).biasing = true → w.impl.sessionStarted = true
  allowed : ∀ t, w.api t = .bias .bias → m.processed = true
  streaming : w.impl.sessionStarted = true → w.impl.health.state = .streaming → m.processed = true

variable {config : Config D} {w w' : World D} {m : Wire} {t : Tid} {n : Nat} {c : Choice D}

theorem biasing_held {p : ApiPc D} (h : p.biasing = true) : .command ∈ p.held := by
  cases p with
  | bias p => cases p <;> simp_all [ApiPc.biasing, ApiPc.held, BiasPc.held]
  | _ => cases h

/-- Nobody else is inside the sending section of `bias` while a thread holds or takes the
command mutex. -/
theorem Locked.no_biasing (h : Locked w) {r : ApiNext D}
    (htake : canTake w.locks (w.api t).held ((w.api t).needs ++ r.pc.held) = true)
    (hm : .command ∈ (w.api t).held ∨ .command ∈ (w.api t).needs) {t' : Tid} (hne : t' ≠ t) :
    (w.api t').biasing = false := by
  by_contra hb
  have hheld := biasing_held (eq_true_of_ne_false hb)
  exact hne (h.owner_api htake hm ((h .command t').mpr (.inl hheld)))

theorem Locked.no_biasing_run (h : Locked w) (hidle : w.api (.worker n) = .idle) {r : RunNext D}
    (htake : canTake w.locks (w.workers n).pc.held
      ((w.workers n).pc.needs ++ r.worker.pc.held) = true)
    (hm : .command ∈ (w.workers n).pc.held ∨ .command ∈ (w.workers n).pc.needs) (t' : Tid) :
    (w.api t').biasing = false := by
  by_contra hb
  have hb := eq_true_of_ne_false hb
  obtain rfl := h.owner_run htake hm ((h .command t').mpr (.inl (biasing_held hb)))
  simp [hidle, ApiPc.biasing] at hb

/-! ## Steps of the entry points -/

/-- The positions from which an entry point does something that concerns the wire. -/
def ApiPc.onWire : ApiPc D → Bool
  | .stop .command | .bias .check | .bias .bias | .bias .restart | .bias .reset
  | .start _ (.rollback .data _) => true
  | _ => false

/-- The members that `OnWire` is about are unchanged, except that the state may cease to be
`Streaming`. -/
structure SameWire (i i' : Impl D) : Prop where
  socket : i'.transport.socket = i.transport.socket
  started : i'.sessionStarted = i.sessionStarted
  state : i'.health.state = .streaming → i.health.state = .streaming

theorem publish_wire {i : Impl D} {code : FaultCode} {message : String} :
    SameWire i (i.publish code message) := by
  unfold Impl.publish
  split
  · exact ⟨rfl, rfl, fun h => by cases h⟩
  · exact ⟨rfl, rfl, id⟩

/-- A step that does not concern the wire. -/
structure QuietApi (w : World D) (r : ApiNext D) : Prop where
  same : SameWire w.impl r.impl
  events : ∀ e ∈ r.events, Wire.heeds e = false
  pc : r.pc.biasing = false

theorem apiNext_quiet {p : ApiPc D} {r : ApiNext D} (hnext : apiNext w t c p = some r)
    (hp : p.onWire = false) : QuietApi w r := by
  cases apiNext_step hnext with
  | rollbackPublish => exact ⟨publish_wire, by simp, rfl⟩
  | dataReset => exact ⟨⟨rfl, rfl, by simp [Impl.resetData]⟩, by simp, rfl⟩
  | stopIdleState | stopJoinedState =>
    exact ⟨⟨rfl, rfl, by simp [Impl.setState]⟩, by simp [Wire.heeds], rfl⟩
  | rollbackData | stopCommand | stopNoCommand | biasAllowed | biasDenied | biasSent | biasFailed
  | biasRestarted | biasRestartFailed | biasReset => cases hp
  | _ => exact ⟨⟨rfl, rfl, id⟩, by simp [Wire.heeds], rfl⟩

theorem Approach.Holds.same {i i' : Impl D} {a : Approach} (h : a.Holds i m) (hw : SameWire i i') :
    a.Holds i' m := by
  cases a with
  | begun | elsewhere => exact h
  | unconnected => exact ⟨h.1, h.2.1, fun hs => h.2.2 (hw.state hs)⟩
  | unstarted =>
    exact ⟨h.1, hw.started.trans h.2.1, hw.socket ▸ h.2.2.1, fun hs => h.2.2.2 (hw.state hs)⟩

/-- A created worker is not on its way into a session. -/
theorem Nested.approach_applyApi (hn : Nested w) {r : ApiNext D} {i : Impl D}
    (h : ∀ n, (w.workers n).pc.approach.Holds i m) (n : Nat) :
    ((w.applyApi config t r).workers n).pc.approach.Holds i m := by
  by_cases hc : n = w.created
  · subst hc
    have hunborn := hn.unborn w.created (Nat.le_refl _)
    cases hspawn : r.spawn <;>
      simp [World.applyApi, hspawn, hunborn, RunPc.approach, Approach.Holds]
  · rw [applyApi_workers_ne hc]
    exact h n

/-- Nothing that concerns the wire changes. -/
theorem OnWire.same (h : OnWire w m) (hnext : w'.nextSocket = w.nextSocket)
    (hsocket : w'.impl.transport.socket = w.impl.transport.socket)
    (hstarted : w'.impl.sessionStarted = w.impl.sessionStarted)
    (happroach : ∀ n, (w'.workers n).pc.approach.Holds w'.impl m)
    (hstreaming : w.impl.sessionStarted = true → w'.impl.health.state = .streaming →
      m.processed = true)
    (hapi : ∀ t, w'.api t = w.api t ∨
      (w'.api t).biasing = false ∧ (w.api t).biasing = false) : OnWire w' m := by
  have hiff : ∀ t q, (ApiPc.bias q : ApiPc D).biasing = true →
      (w'.api t = .bias q ↔ w.api t = .bias q) := by
    intro t q hq
    rcases hapi t with hsame | ⟨hpc', hpc⟩
    · rw [hsame]
    · constructor <;> intro he
      · rw [he] at hpc'; simp [hq] at hpc'
      · rw [he] at hpc; simp [hq] at hpc
  exact {
    next := h.next.trans hnext.symm
    socket := h.socket.trans hsocket.symm
    approach := happroach
    notStarted := fun hs => h.notStarted (hstarted ▸ hs)
    started := fun hs => by
      obtain ⟨hne, hopened⟩ := h.started (hstarted ▸ hs)
      exact ⟨hsocket ▸ hne, fun hr => hopened fun t ht => hr t ((hiff t .restart rfl).mpr ht)⟩
    restart := fun t ht => h.restart t ((hiff t .restart rfl).mp ht)
    biasing := fun t ht => by
      rw [hstarted]
      rcases hapi t with hsame | ⟨hpc', -⟩
      · exact h.biasing t (hsame ▸ ht)
      · simp [hpc'] at ht
    allowed := fun t ht => h.allowed t ((hiff t .bias rfl).mp ht)
    streaming := fun hs => hstreaming (hstarted ▸ hs) }

/-- A thread moves between positions outside of the sending section of `bias`. -/
theorem OnWire.quietApi (h : OnWire w m) (hn : Nested w) {r : ApiNext D}
    (hsocket : r.impl.transport.socket = w.impl.transport.socket)
    (hstarted : r.impl.sessionStarted = w.impl.sessionStarted)
    (happroach : ∀ n, (w.workers n).pc.approach.Holds r.impl m)
    (hstreaming : w.impl.sessionStarted = true → r.impl.health.state = .streaming →
      m.processed = true)
    (hpc : (w.api t).biasing = false) (hpc' : r.pc.biasing = false) :
    OnWire (w.applyApi config t r) m := by
  refine h.same rfl hsocket hstarted (hn.approach_applyApi happroach) hstreaming fun t' => ?_
  by_cases ht : t' = t
  · subst ht
    exact .inr ⟨by simpa using hpc', hpc⟩
  · exact .inl (Function.update_of_ne ht ..)

/-- A thread that holds the command mutex moves. -/
theorem OnWire.commandApi (h : OnWire w m) (hn : Nested w) {r : ApiNext D} {m' : Wire}
    (hothers : ∀ t', t' ≠ t → (w.api t').biasing = false)
    (hnext : m'.next = m.next) (hsocket : m'.socket = r.impl.transport.socket)
    (happroach : ∀ n, (w.workers n).pc.approach.Holds r.impl m')
    (hnot : r.impl.sessionStarted = false → m'.stage.complete = true)
    (hstarted : r.impl.sessionStarted = true → r.impl.transport.socket ≠ none ∧
      (r.pc ≠ .bias .restart → m'.stage = .opened))
    (hrestart : r.pc = .bias .restart → m'.stage = .biasing)
    (hbiasing : r.pc.biasing = true → r.impl.sessionStarted = true)
    (hallowed : r.pc = .bias .bias → m'.processed = true)
    (hstreaming : r.impl.sessionStarted = true → r.impl.health.state = .streaming →
      m'.processed = true) : OnWire (w.applyApi config t r) m' := by
  have hapi : ∀ t', (Function.update w.api t r.pc t').biasing = true →
      Function.update w.api t r.pc t' = r.pc := by
    intro t' ht'
    by_cases ht : t' = t
    · subst ht; rw [Function.update_self]
    · rw [Function.update_of_ne ht] at ht'
      simp [hothers t' ht] at ht'
  exact {
    next := hnext.trans h.next
    socket := hsocket
    approach := hn.approach_applyApi happroach
    notStarted := hnot
    started := fun hs => ⟨(hstarted hs).1, fun hr => (hstarted hs).2 (by simpa using hr t)⟩
    restart := fun t' ht' => hrestart ((hapi t' (by
      rw [show Function.update w.api t r.pc t' = _ from ht']; rfl)).symm.trans ht')
    biasing := fun t' ht' => hbiasing (hapi t' ht' ▸ ht')
    allowed := fun t' ht' => hallowed ((hapi t' (by
      rw [show Function.update w.api t r.pc t' = _ from ht']; rfl)).symm.trans ht')
    streaming := hstreaming }

/-- On a connected socket an attempt is made and reported. -/
theorem send_some {i : Impl D} {s : Nat} {command : Command} {e : Option String}
    {events : List (Event D)} (hs : i.transport.socket = some s)
    (h : i.send t command c = some (e, events)) :
    events = [.sent t s command e.isNone] := by
  simp only [Impl.send, hs] at h
  cases c <;> cases h <;> rfl

theorem run_sent {s : Nat} {command : Command} {ok : Bool} (stage : Stage)
    (hs : m.socket = some s) (hbias : command = .setSoftwareBias → m.processed = true)
    (hstage : m.stage.next (command, ok) = some stage) :
    m.run [(.sent t s command ok : Event D)] = some { m with stage } := by
  simpa [Wire.run, Wire.step, hs, hstage] using hbias

theorem OnWire.opened (h : OnWire w m) (hs : w.impl.sessionStarted = true)
    (hothers : ∀ t', t' ≠ t → (w.api t').biasing = false) (ht : w.api t ≠ .bias .restart) :
    m.stage = .opened := by
  refine (h.started hs).2 fun t' ht' => ?_
  by_cases hne : t' = t
  · exact ht (hne ▸ ht')
  · have := hothers t' hne
    simp [ht', ApiPc.biasing] at this

/-- Once `StartRealtime` was sent, no worker is on its way to it. -/
theorem OnWire.elsewhere (h : OnWire w m)
    (hopen : m.stage ≠ .fresh) (n : Nat) : (w.workers n).pc.approach = .elsewhere := by
  have happ := h.approach n
  cases ha : (w.workers n).pc.approach with
  | elsewhere => rfl
  | begun => rw [ha] at happ; exact absurd happ.2 hopen
  | unconnected => rw [ha] at happ; exact absurd happ.2.1 hopen
  | unstarted => rw [ha] at happ; exact absurd happ.1 hopen

theorem OnWire.stopCommand (h : OnWire w m) (ho : Orderly w) {r : ApiNext D}
    (hpc : w.api t = .stop .command) (hnext : stopNext w t c .command = some r)
    (htake : canTake w.locks (w.api t).held ((w.api t).needs ++ r.pc.held) = true) :
    ∃ m', m.run r.events = some m' ∧ OnWire (w.applyApi config t r) m' := by
  have hothers : ∀ t', t' ≠ t → (w.api t').biasing = false := fun t' =>
    ho.locked.no_biasing htake (.inr (by simp [hpc, ApiPc.needs, StopPc.needs]))
  simp only [stopNext] at hnext
  split at hnext
  · rename_i hs
    obtain ⟨s, hsocket⟩ := Option.ne_none_iff_exists'.mp (h.started hs).1
    have hopened := h.opened hs hothers (by simp [hpc])
    split at hnext
    · rename_i e events hsend
      cases hnext
      rw [send_some hsocket hsend]
      refine ⟨{ m with stage := .stopped },
        run_sent _ (h.socket.trans hsocket) (fun h => by cases h) (by rw [hopened]; rfl), ?_⟩
      exact h.commandApi ho.nested hothers rfl h.socket (fun n => by
          rw [h.elsewhere (by simp [hopened]) n]; trivial)
        (fun _ => rfl) (fun h => by cases h) (fun h => by cases h) (fun h => by cases h)
        (fun h => by cases h) (fun h => by cases h)
    · cases hnext
  · cases hnext
    refine ⟨m, rfl, ?_⟩
    exact h.quietApi ho.nested rfl rfl h.approach h.streaming (by simp [hpc, ApiPc.biasing]) rfl

theorem OnWire.biasNext (h : OnWire w m) (ho : Orderly w) {p : BiasPc} {r : ApiNext D}
    (hpc : w.api t = .bias p) (hp : (ApiPc.bias p : ApiPc D).onWire = true)
    (hnext : biasNext w t c p = some r)
    (htake : canTake w.locks (w.api t).held ((w.api t).needs ++ r.pc.held) = true) :
    ∃ m', m.run r.events = some m' ∧ OnWire (w.applyApi config t r) m' := by
  have hothers : ∀ t', t' ≠ t → (w.api t').biasing = false := fun t' =>
    ho.locked.no_biasing htake (.inl (by
      cases p <;> simp_all [ApiPc.onWire, ApiPc.held, BiasPc.held]))
  cases p with
  | lock | record => cases hp
  | check =>
    simp only [Client.biasNext] at hnext
    split at hnext <;> cases hnext
    · rename_i hallowed
      simp only [Impl.biasAllowed, Bool.not_eq_true', Bool.or_eq_false_iff, Bool.not_eq_false',
        decide_eq_false_iff_not, ne_eq, Decidable.not_not] at hallowed
      have hs := hallowed.1.1.2
      have hprocessed := h.streaming hs hallowed.2
      refine ⟨m, rfl, h.commandApi ho.nested hothers rfl h.socket h.approach h.notStarted
        (fun _ => ⟨(h.started hs).1, fun _ => h.opened hs hothers (by simp [hpc])⟩)
        (fun h => by cases h) (fun _ => hs) (fun _ => hprocessed) h.streaming⟩
    · refine ⟨m, Wire.run_unheeded (by simp [Wire.heeds]), ?_⟩
      exact h.quietApi ho.nested rfl rfl h.approach h.streaming (by simp [hpc, ApiPc.biasing]) rfl
  | bias =>
    have hs := h.biasing t (by simp [hpc, ApiPc.biasing])
    have hprocessed := h.allowed t hpc
    obtain ⟨s, hsocket⟩ := Option.ne_none_iff_exists'.mp (h.started hs).1
    have hopened := h.opened hs hothers (by simp [hpc])
    simp only [Client.biasNext] at hnext
    split at hnext <;> cases hnext
    · rename_i hsend
      rw [send_some hsocket hsend]
      refine ⟨{ m with stage := .biasing },
        run_sent _ (h.socket.trans hsocket) (fun _ => hprocessed) (by rw [hopened]; rfl), ?_⟩
      exact h.commandApi ho.nested hothers rfl h.socket (fun n => by
          rw [h.elsewhere (by simp [hopened]) n]; trivial)
        (fun hf => by cases hs.symm.trans hf) (fun _ => ⟨(h.started hs).1, fun hne => absurd rfl hne⟩)
        (fun _ => rfl) (fun _ => hs) (fun h => by cases h) h.streaming
    · rename_i hsend
      rw [send_some hsocket hsend]
      refine ⟨{ m with stage := .opened }, ?_, ?_⟩
      · refine Wire.run_append.mpr ⟨_, run_sent .opened (h.socket.trans hsocket)
          (fun _ => hprocessed) (by rw [hopened]; rfl), Wire.run_unheeded (by simp [Wire.heeds])⟩
      · exact h.commandApi ho.nested hothers rfl h.socket
          (fun n => by
          rw [h.elsewhere (by simp [hopened]) n]; trivial) (fun hf => by cases hs.symm.trans hf)
          (fun _ => ⟨(h.started hs).1, fun _ => rfl⟩) (fun h => by cases h) (fun h => by cases h)
          (fun h => by cases h) h.streaming
  | restart =>
    have hs := h.biasing t (by simp [hpc, ApiPc.biasing])
    have hstage := h.restart t hpc
    obtain ⟨s, hsocket⟩ := Option.ne_none_iff_exists'.mp (h.started hs).1
    simp only [Client.biasNext] at hnext
    split at hnext <;> cases hnext
    · rename_i hsend
      rw [send_some hsocket hsend]
      refine ⟨{ m with stage := .opened },
        run_sent _ (h.socket.trans hsocket) (fun h => by cases h) (by rw [hstage]; rfl), ?_⟩
      exact h.commandApi ho.nested hothers rfl h.socket (fun n => by
          rw [h.elsewhere (by simp [hstage]) n]; trivial)
        (fun hf => by cases hs.symm.trans hf) (fun _ => ⟨(h.started hs).1, fun _ => rfl⟩)
        (fun h => by cases h) (fun _ => hs) (fun h => by cases h) h.streaming
    · rename_i hsend
      rw [send_some hsocket hsend]
      refine ⟨{ m with stage := .opened }, ?_, ?_⟩
      · refine Wire.run_append.mpr ⟨_, run_sent .opened (h.socket.trans hsocket)
          (fun h => by cases h) (by rw [hstage]; rfl), Wire.run_unheeded (by simp [Wire.heeds])⟩
      · exact h.commandApi ho.nested hothers rfl h.socket
          (fun n => by
          rw [h.elsewhere (by simp [hstage]) n]; trivial) (fun hf => by cases hs.symm.trans hf)
          (fun _ => ⟨(h.started hs).1, fun _ => rfl⟩) (fun h => by cases h) (fun h => by cases h)
          (fun h => by cases h) h.streaming
  | reset =>
    have hs := h.biasing t (by simp [hpc, ApiPc.biasing])
    cases hnext
    refine ⟨m, Wire.run_unheeded (by simp [Wire.heeds]), ?_⟩
    exact h.commandApi ho.nested hothers rfl h.socket (fun n => (h.approach n).same ⟨rfl, rfl, id⟩)
      h.notStarted
      (fun _ => ⟨(h.started hs).1, fun _ => h.opened hs hothers (by simp [hpc])⟩)
      (fun h => by cases h) (fun h => by cases h) (fun h => by cases h) h.streaming

theorem OnWire.api (h : OnWire w m) (ho : Orderly w) (hsh : Shut w) {r : ApiNext D}
    (hnext : apiNext w t c (w.api t) = some r)
    (htake : canTake w.locks (w.api t).held ((w.api t).needs ++ r.pc.held) = true) :
    ∃ m', m.run r.events = some m' ∧ OnWire (w.applyApi config t r) m' := by
  cases hp : (w.api t).onWire with
  | false =>
    have hq := apiNext_quiet hnext hp
    refine ⟨m, Wire.run_unheeded hq.events, ?_⟩
    refine h.quietApi ho.nested hq.same.socket hq.same.started
      (fun n => (h.approach n).same hq.same) (fun hs hst => h.streaming hs (hq.same.state hst)) ?_
      hq.pc
    cases hpc : w.api t with
    | bias p => rw [hpc] at hp; cases p <;> first | rfl | cases hp
    | _ => rfl
  | true =>
    cases hpc : w.api t with
    | bias p =>
      rw [hpc] at hnext hp
      exact h.biasNext ho hpc hp hnext htake
    | stop p =>
      rw [hpc] at hnext hp
      cases p with
      | command => exact h.stopCommand ho hpc hnext htake
      | _ => cases hp
    | start callback p =>
      rw [hpc] at hnext hp
      cases p with
      | rollback p previous =>
        cases p with
        | data =>
          -- no worker executes, so the restored state is not that of a session
          obtain ⟨hworker, hjoining⟩ := ho.life.resting t (.inl (by
            simp [World.life, hpc, ApiPc.role, StartPc.role, RollbackPc.role]))
          have hnone := ho.life.not_executing hworker hjoining
          have hrunning : ∀ n, (w.workers n).pc.running = false := fun n => by
            simpa [World.executing] using hnone n
          have hstopped := (hsh.closed fun n => shut_of_not_running (hrunning n)).2
          cases hnext
          refine ⟨m, rfl, h.quietApi ho.nested rfl rfl (fun n => ?_) (fun hs => ?_)
            (by simp [hpc, ApiPc.biasing]) rfl⟩
          · have := hrunning n
            cases hw : (w.workers n).pc <;> simp_all [RunPc.running, RunPc.approach, Approach.Holds]
          · simp [hstopped] at hs
        | _ => cases hp
      | _ => cases hp
    | _ => rw [hpc] at hp; cases hp

/-! ## Steps of the worker -/

/-- The positions from which a worker does something that concerns the wire. -/
def RunPc.onWire : RunPc D → Bool
  | .top | .close _ | .closeTransport _ | .session .connecting | .session .connect
  | .session .sendStart | .session (.record (.account ..)) => true
  | _ => false

/-- A step that does not concern the wire. -/
structure QuietRun (w : World D) (p : RunPc D) (r : RunNext D) : Prop where
  same : SameWire w.impl r.impl
  events : ∀ e ∈ r.events, Wire.heeds e = false
  opened : r.opened = false
  approach : r.worker.pc.approach = p.approach ∨ r.worker.pc.approach = .elsewhere

theorem afterRecord_quiet {i : Impl D} {worker : Worker D} {outcome : Option SessionResult}
    {events : List (Event D)} {p : RunPc D} (hsame : SameWire w.impl i)
    (hevents : ∀ e ∈ events, Wire.heeds e = false) :
    QuietRun w p (afterRecord i worker n outcome events) := by
  cases outcome with
  | none => exact ⟨hsame, hevents, rfl, .inr rfl⟩
  | some result =>
    refine ⟨hsame, ?_, rfl, .inr rfl⟩
    simpa [afterRecord, or_imp, forall_and, Wire.heeds] using hevents

theorem recordNext_quiet [Double D] {worker : Worker D} {p : RecordPc D} {r : RunNext D}
    (hnext : recordNext config w n c worker p = some r)
    (hp : (RunPc.session (.record p)).onWire = false) :
    QuietRun w (.session (.record p)) r := by
  cases p with
  | account => cases hp
  | callbackFailed | notifyLifecycle =>
    cases hnext
    exact afterRecord_quiet ⟨rfl, rfl, id⟩ (by simp [Wire.heeds])
  | _ =>
    simp only [recordNext] at hnext
    (repeat' split at hnext) <;> cases hnext <;>
      exact ⟨⟨rfl, rfl, id⟩, by simp [Wire.heeds], rfl, .inr rfl⟩

theorem applyConfiguration_wire [DecidableEq D] {i : Impl D}
    {configuration : SensorConfiguration D} :
    SameWire i (i.applyConfiguration configuration) := by
  unfold Impl.applyConfiguration
  split
  · split <;> exact ⟨rfl, rfl, id⟩
  · exact ⟨rfl, rfl, id⟩

/-- Only the worker that moves can be on its way into a session. -/
theorem Orderly.elsewhere (ho : Orderly w) (hn : w.executing n) {k : Nat} (hk : k ≠ n) :
    (w.workers k).pc.approach = .elsewhere := by
  cases hrun : (w.workers k).pc.running with
  | true =>
    have h₁ := ho.life.last_of_executing hn
    have h₂ := ho.life.last_of_executing (n := k) hrun
    omega
  | false => cases hpc : (w.workers k).pc <;> simp_all [RunPc.running, RunPc.approach]

theorem OnWire.moveRun {r : RunNext D}
    (hothers : ∀ k, k ≠ n → (w.workers k).pc.approach = .elsewhere) {m' : Wire}
    (hnext : m'.next = if r.opened then w.nextSocket + 1 else w.nextSocket)
    (hsocket : m'.socket = r.impl.transport.socket)
    (happroach : r.worker.pc.approach.Holds r.impl m')
    (hnot : r.impl.sessionStarted = false → m'.stage.complete = true)
    (hstarted : r.impl.sessionStarted = true → r.impl.transport.socket ≠ none ∧
      ((∀ t, w.api t ≠ .bias .restart) → m'.stage = .opened))
    (hrestart : ∀ t, w.api t = .bias .restart → m'.stage = .biasing)
    (hbiasing : ∀ t, (w.api t).biasing = true → r.impl.sessionStarted = true)
    (hallowed : ∀ t, w.api t = .bias .bias → m'.processed = true)
    (hstreaming : r.impl.sessionStarted = true → r.impl.health.state = .streaming →
      m'.processed = true) : OnWire (w.applyRun n r) m' where
  next := hnext
  socket := hsocket
  approach := fun k => by
    by_cases hk : k = n
    · subst hk; simpa using happroach
    · rw [World.applyRun_workers, Function.update_of_ne hk, hothers k hk]; trivial
  notStarted := hnot
  started := hstarted
  restart := hrestart
  biasing := hbiasing
  allowed := hallowed
  streaming := hstreaming

/-- Before a session connects no thread is inside the sending section of `bias`. -/
theorem OnWire.no_biasing (h : OnWire w m) (hs : w.impl.sessionStarted = false) (t : Tid) :
    (w.api t).biasing = false := by
  by_contra hb
  simp [h.biasing t (eq_true_of_ne_false hb)] at hs

/-- A worker moves without touching the wire. -/
theorem OnWire.stayRun {r : RunNext D} (h : OnWire w m)
    (hothers : ∀ k, k ≠ n → (w.workers k).pc.approach = .elsewhere)
    (hsocket : r.impl.transport.socket = w.impl.transport.socket)
    (hstarted : r.impl.sessionStarted = w.impl.sessionStarted) (hopened : r.opened = false)
    (happroach : r.worker.pc.approach.Holds r.impl m)
    (hstreaming : w.impl.sessionStarted = true → r.impl.health.state = .streaming →
      m.processed = true) : OnWire (w.applyRun n r) m :=
  .moveRun hothers (by simp [hopened, h.next]) (h.socket.trans hsocket.symm) happroach
    (fun hs => h.notStarted (hstarted ▸ hs)) (by rw [hstarted, hsocket]; exact h.started) h.restart
    (by rw [hstarted]; exact h.biasing) h.allowed (by rw [hstarted]; exact hstreaming)

theorem OnWire.account [Double D] {worker : Worker D} {r : RunNext D} (h : OnWire w m)
    (hothers : ∀ k, k ≠ n → (w.workers k).pc.approach = .elsewhere)
    {record : RawRecord} {receivedAt : TimePoint} {rdt : SequenceObservation}
    {ft : FtSequenceKind}
    (hnext : recordNext config w n c worker (.account record receivedAt rdt ft) = some r) :
    ∃ m', m.run r.events = some m' ∧ OnWire (w.applyRun n r) m' := by
  simp only [recordNext] at hnext
  split at hnext
  · cases hnext
    exact ⟨m, rfl, h.stayRun hothers rfl rfl rfl trivial h.streaming⟩
  · rename_i haccount
    obtain ⟨-, rfl, -⟩ := account_some haccount
    refine ⟨{ m with processed := true }, ?_, ?_⟩
    · split at hnext <;> cases hnext
      · rename_i outcome _
        cases outcome <;> simp [afterRecord, Wire.run, Wire.step]
      · simp [Wire.run, Wire.step]
    · have hr : r.impl = Impl.accounted config w.impl record receivedAt rdt ft ∧
          r.opened = false ∧ r.worker.pc.approach = .elsewhere := by
        split at hnext <;> cases hnext
        · rename_i outcome _
          cases outcome <;> exact ⟨rfl, rfl, rfl⟩
        · exact ⟨rfl, rfl, rfl⟩
      obtain ⟨himpl, hopened, happ⟩ := hr
      exact .moveRun hothers (by simp [hopened, h.next]) (by rw [himpl]; exact h.socket)
        (by rw [happ]; trivial) (by rw [himpl]; exact h.notStarted)
        (by rw [himpl]; exact h.started) h.restart (by rw [himpl]; exact h.biasing)
        (fun _ _ => rfl) (fun _ _ => rfl)

theorem onWire_initial (clock : TimePoint) : OnWire (World.initial clock : World D) {} := by
  constructor <;> simp [World.initial, RunPc.approach, Approach.Holds, Stage.complete, ApiPc.biasing]

section
variable [DecidableEq D] [Double D] {worker : Worker D} {r : RunNext D}

theorem sessionNext_quiet {p : SessionPc D} (hnext : sessionNext config w n c worker p = some r)
    (hp : (RunPc.session p).onWire = false) : QuietRun w (.session p) r := by
  cases p with
  | record p => exact recordNext_quiet hnext hp
  | connecting | connect | sendStart => cases hp
  | apply configuration =>
    cases hnext
    exact ⟨applyConfiguration_wire, by simp, rfl, .inl rfl⟩
  | pollCheck =>
    cases hnext
    refine ⟨⟨rfl, rfl, id⟩, by simp, rfl, .inr ?_⟩
    simp only [RunPc.approach]
    split <;> rfl
  | _ =>
    simp only [sessionNext] at hnext
    (repeat' split at hnext) <;> cases hnext <;>
      first
      | exact ⟨⟨rfl, rfl, id⟩, by simp [Wire.heeds], rfl, .inl rfl⟩
      | exact ⟨⟨rfl, rfl, id⟩, by simp [Wire.heeds], rfl, .inr rfl⟩

theorem runNext_quiet {p : RunPc D} (hnext : runNext config w n c worker p = some r)
    (hp : p.onWire = false) : QuietRun w p r := by
  cases p with
  | session p => exact sessionNext_quiet hnext hp
  | top | close | closeTransport => cases hp
  | enterBackoff message | finalState =>
    cases hnext
    exact ⟨⟨rfl, rfl, by simp [Impl.enterBackoff, Impl.setState]⟩, by simp, rfl, .inr rfl⟩
  | publish code message =>
    cases hnext
    refine ⟨publish_wire, ?_, rfl, .inr rfl⟩
    split <;> simp [Wire.heeds]
  | raised message | finalFaulted =>
    cases hnext
    refine ⟨⟨rfl, rfl, id⟩, by simp, rfl, .inr ?_⟩
    dsimp only
    split <;> rfl
  | _ =>
    simp only [runNext] at hnext
    (repeat' split at hnext) <;> cases hnext <;>
      exact ⟨⟨rfl, rfl, id⟩, by simp [Wire.heeds, nextSession], rfl, .inr rfl⟩

theorem OnWire.top (h : OnWire w m) (hsh : Shut w)
    (hothers : ∀ k, k ≠ n → (w.workers k).pc.approach = .elsewhere)
    (hall : ∀ k, (w.workers k).pc.shut = true)
    (hnext : runNext config w n c worker .top = some r) :
    ∃ m', m.run r.events = some m' ∧ OnWire (w.applyRun n r) m' := by
  obtain ⟨hnone, hs⟩ := hsh.closed hall
  have hbiasing := h.no_biasing hs
  simp only [runNext] at hnext
  split at hnext <;> cases hnext
  · exact ⟨m, rfl, h.stayRun hothers rfl rfl rfl trivial h.streaming⟩
  · refine ⟨{ next := m.next }, by simp [Wire.run, Wire.step, h.socket, hnone], ?_⟩
    refine .moveRun hothers h.next hnone.symm ⟨rfl, rfl⟩ (fun _ => rfl) ?_ (fun t ht => ?_)
      (fun t ht => ?_) (fun t ht => ?_) ?_
    · exact fun hs' => by cases hs.symm.trans hs'
    · have := hbiasing t; simp [ht, ApiPc.biasing] at this
    · simp [hbiasing t] at ht
    · have := hbiasing t; simp [ht, ApiPc.biasing] at this
    · exact fun hs' => by cases hs.symm.trans hs'

theorem OnWire.connect (h : OnWire w m) (hsh : Shut w)
    (hothers : ∀ k, k ≠ n → (w.workers k).pc.approach = .elsewhere)
    (hall : ∀ k, (w.workers k).pc.shut = true)
    (hpc : (w.workers n).pc = .session .connect)
    (hnext : sessionNext config w n c worker .connect = some r) :
    ∃ m', m.run r.events = some m' ∧ OnWire (w.applyRun n r) m' := by
  obtain ⟨hnone, hs⟩ := hsh.closed hall
  have hbiasing := h.no_biasing hs
  have happ := h.approach n
  rw [hpc] at happ
  obtain ⟨hconnected, hfresh, hstate⟩ := happ
  simp only [sessionNext] at hnext
  split at hnext <;> cases hnext
  · refine ⟨{ m with next := m.next + 1, socket := some m.next, connected := true }, ?_, ?_⟩
    · simp [Wire.run, Wire.step, Impl.closedEvents, hnone, h.socket, hconnected, h.next]
    · refine .moveRun hothers (by simp [h.next]) (by simp [h.next, Impl.connectTransport]) ?_
        (fun _ => by simp [hfresh, Stage.complete]) ?_ (fun t ht => ?_) (fun t ht => ?_)
        (fun t ht => ?_) ?_
      · exact ⟨hfresh, hs, by simp [Impl.connectTransport], hstate⟩
      · exact fun hs' => by cases hs.symm.trans hs'
      · have := hbiasing t; simp [ht, ApiPc.biasing] at this
      · simp [hbiasing t] at ht
      · have := hbiasing t; simp [ht, ApiPc.biasing] at this
      · exact fun hs' => by cases hs.symm.trans hs'
  · exact ⟨m, rfl, h.stayRun hothers rfl rfl rfl trivial h.streaming⟩

theorem OnWire.sendStart (h : OnWire w m)
    (hothers : ∀ k, k ≠ n → (w.workers k).pc.approach = .elsewhere)
    (hpc : (w.workers n).pc = .session .sendStart)
    (hnext : sessionNext config w n c worker .sendStart = some r) :
    ∃ m', m.run r.events = some m' ∧ OnWire (w.applyRun n r) m' := by
  have happ := h.approach n
  rw [hpc] at happ
  obtain ⟨hfresh, hs, hne, hstate⟩ := happ
  obtain ⟨s, hsocket⟩ := Option.ne_none_iff_exists'.mp hne
  have hbiasing := h.no_biasing hs
  have hrestart : ∀ t, w.api t ≠ .bias .restart ∧ w.api t ≠ .bias .bias := fun t => by
    have := hbiasing t
    constructor <;> intro ht <;> simp [ht, ApiPc.biasing] at this
  simp only [sessionNext] at hnext
  split at hnext <;> cases hnext <;> rename_i hsend <;> rw [send_some hsocket hsend]
  · refine ⟨{ m with stage := .opened },
      run_sent _ (h.socket.trans hsocket) (fun h => by cases h) (by rw [hfresh]; rfl), ?_⟩
    exact .moveRun hothers h.next h.socket trivial (fun h => by cases h) (fun _ => ⟨hne, fun _ => rfl⟩)
      (fun t ht => absurd ht (hrestart t).1) (fun t ht => by simp [hbiasing t] at ht)
      (fun t ht => absurd ht (hrestart t).2) (fun _ hst => absurd hst hstate)
  · refine ⟨{ m with stage := .refused },
      run_sent _ (h.socket.trans hsocket) (fun h => by cases h) (by rw [hfresh]; rfl), ?_⟩
    exact .moveRun hothers h.next h.socket trivial (fun _ => rfl)
      (fun hs' => by cases hs.symm.trans hs')
      (fun t ht => absurd ht (hrestart t).1) (fun t ht => by simp [hbiasing t] at ht)
      (fun t ht => absurd ht (hrestart t).2) (fun hs' => by cases hs.symm.trans hs')

theorem OnWire.close (h : OnWire w m)
    (hothers : ∀ k, k ≠ n → (w.workers k).pc.approach = .elsewhere)
    (hbiasing : ∀ t, (w.api t).biasing = false) {context : CloseContext}
    (hnext : runNext config w n c worker (.close context) = some r) :
    ∃ m', m.run r.events = some m' ∧ OnWire (w.applyRun n r) m' := by
  have hrestart : ∀ t, w.api t ≠ .bias .restart ∧ w.api t ≠ .bias .bias := fun t => by
    have := hbiasing t
    constructor <;> intro ht <;> simp [ht, ApiPc.biasing] at this
  simp only [runNext] at hnext
  split at hnext
  · rename_i hs
    obtain ⟨hne, hopened⟩ := h.started hs
    have hopened := hopened fun t => (hrestart t).1
    obtain ⟨s, hsocket⟩ := Option.ne_none_iff_exists'.mp hne
    split at hnext <;> cases hnext
    rename_i hsend
    rw [send_some hsocket hsend]
    refine ⟨{ m with stage := .stopped },
      run_sent _ (h.socket.trans hsocket) (fun h => by cases h) (by rw [hopened]; rfl), ?_⟩
    exact .moveRun hothers h.next h.socket trivial (fun _ => rfl) (fun h => by cases h)
      (fun t ht => absurd ht (hrestart t).1) (fun t ht => by simp [hbiasing t] at ht)
      (fun t ht => absurd ht (hrestart t).2) (fun h => by cases h)
  · cases hnext
    exact ⟨m, rfl, h.stayRun hothers rfl rfl rfl trivial h.streaming⟩

theorem OnWire.closeTransport (h : OnWire w m)
    (hothers : ∀ k, k ≠ n → (w.workers k).pc.approach = .elsewhere)
    (hs : w.impl.sessionStarted = false) {context : CloseContext}
    (hnext : runNext config w n c worker (.closeTransport context) = some r) :
    ∃ m', m.run r.events = some m' ∧ OnWire (w.applyRun n r) m' := by
  have hbiasing := h.no_biasing hs
  cases hnext
  refine ⟨{ m with socket := none }, ?_, ?_⟩
  · simp only [Impl.closedEvents]
    split
    · rename_i hnone
      have := h.socket.trans hnone
      cases m
      simp_all [Wire.run]
    · rename_i s hsocket
      simp [Wire.run, Wire.step, h.socket, hsocket, h.notStarted hs]
  · refine .moveRun hothers h.next rfl ?_ h.notStarted (fun hs' => by cases hs.symm.trans hs')
      h.restart (fun t ht => by simp [hbiasing t] at ht) h.allowed
      (fun hs' => by cases hs.symm.trans hs')
    cases context <;> trivial

theorem OnWire.run (h : OnWire w m) (ho : Orderly w) (hsh : Shut w)
    (hnext : runNext config w n c (w.workers n) (w.workers n).pc = some r)
    (htake : canTake w.locks (w.workers n).pc.held
      ((w.workers n).pc.needs ++ r.worker.pc.held) = true) :
    ∃ m', m.run r.events = some m' ∧ OnWire (w.applyRun n r) m' := by
  have hrun := executing_of_next hnext
  have hothers : ∀ k, k ≠ n → (w.workers k).pc.approach = .elsewhere := fun k => ho.elsewhere hrun
  have hall : (w.workers n).pc.shut = true → ∀ k, (w.workers k).pc.shut = true := by
    intro hn k
    by_cases hk : k = n
    · rw [hk]; exact hn
    · refine shut_of_not_running (eq_false_of_ne_true fun hk' => hk ?_)
      have h₁ := ho.life.last_of_executing hrun
      have h₂ := ho.life.last_of_executing (n := k) hk'
      omega
  cases hp : (w.workers n).pc.onWire with
  | false =>
    have hq := runNext_quiet hnext hp
    refine ⟨m, Wire.run_unheeded hq.events, h.stayRun hothers hq.same.socket hq.same.started
      hq.opened ?_ fun hs hst => h.streaming hs (hq.same.state hst)⟩
    rcases hq.approach with happ | happ <;> rw [happ]
    · exact (h.approach n).same hq.same
    · trivial
  | true =>
    cases hpc : (w.workers n).pc with
    | top => rw [hpc] at hnext; exact h.top hsh hothers (hall (by rw [hpc]; rfl)) hnext
    | close context =>
      rw [hpc] at hnext
      exact h.close hothers (ho.locked.no_biasing_run (ho.nested.idle_of_runNext (hpc ▸ hnext))
        htake (.inr (by simp [hpc, RunPc.needs]))) hnext
    | closeTransport context =>
      rw [hpc] at hnext
      exact h.closeTransport hothers (hsh.closing n context hpc) hnext
    | session p =>
      rw [hpc] at hnext hp
      have hnext : sessionNext config w n c (w.workers n) p = some r := hnext
      cases p with
      | connecting =>
        have happ := h.approach n
        rw [hpc] at happ
        cases hnext
        exact ⟨m, rfl, h.stayRun hothers rfl rfl rfl
          ⟨happ.1, happ.2, by simp [Impl.setState]⟩ (by simp [Impl.setState])⟩
      | connect => exact h.connect hsh hothers (hall (by rw [hpc]; rfl)) hpc hnext
      | sendStart => exact h.sendStart hothers hpc hnext
      | record p =>
        have hnext : recordNext config w n c (w.workers n) p = some r := hnext
        cases p with
        | account => exact h.account hothers hnext
        | _ => cases hp
      | _ => cases hp
    | _ => rw [hpc] at hp; cases hp

/-! ## The discipline -/

/-- The monitor accepts the history of every reachable state. -/
theorem Reachable.onWire (h : Reachable config w l) :
    ∃ m, Wire.run {} l = some m ∧ OnWire w m := by
  refine h.induction (I := fun v k => ∃ m, Wire.run {} k = some m ∧ OnWire v m)
    (fun clock => ⟨{}, rfl, onWire_initial clock⟩) ?_
  rintro v v' k k' hv ⟨m, hrun, hi⟩ hm
  have ho := hv.orderly
  have hsh := hv.shut
  suffices ∃ m', m.run k' = some m' ∧ OnWire v' m' by
    obtain ⟨m', hrun', hi'⟩ := this
    exact ⟨m', Wire.run_append.mpr ⟨m, hrun, hrun'⟩, hi'⟩
  cases hm with
  | tick | spurious =>
    exact ⟨m, rfl, hi.same rfl rfl rfl hi.approach hi.streaming fun _ => .inl rfl⟩
  | call t call hidle hmay =>
    refine ⟨m, rfl, hi.same rfl rfl rfl hi.approach hi.streaming fun t' => ?_⟩
    by_cases ht : t' = t
    · subst ht
      refine .inr ⟨?_, by simp [hidle, ApiPc.biasing]⟩
      cases call <;> simp [Call.entry, ApiPc.biasing]
    · exact .inl (Function.update_of_ne ht ..)
  | api t c r hnext htake => exact hi.api ho hsh hnext htake
  | run n c r hnext htake => exact hi.run ho hsh hnext htake

end

/-! ## After the command section of `stop` -/

/-- The section of `stop` between setting the flag and joining the worker. -/
def ApiPc.stopFlagged : ApiPc D → Bool
  | .stop .notifyFirst | .stop .notifyLifecycle | .stop .command | .stop .shutdown
  | .stop .selfCheck => true
  | _ => false

/-- `stop` sets the flag, and only a `start` that has found no worker clears it. -/
theorem apiNext_stopping {p : ApiPc D} {r : ApiNext D} (hnext : apiNext w t c p = some r) :
    (r.impl.stopping = w.impl.stopping ∨ r.impl.stopping = true ∨
      p.role = .quiet ∨ p.role = .cleared) ∧
    (r.pc.stopFlagged = true → p.stopFlagged = true ∧ r.impl.stopping = w.impl.stopping ∨
      r.impl.stopping = true) := by
  cases apiNext_step hnext with
  | stopFlag => exact ⟨.inr (.inl rfl), fun _ => .inr rfl⟩
  | clearStopping => exact ⟨.inr (.inr (.inl rfl)), fun h => by cases h⟩
  | rollbackStopping => exact ⟨.inr (.inr (.inr rfl)), fun h => by cases h⟩
  | rollbackPublish => exact ⟨.inl (publish_control ..).stopping, fun h => by cases h⟩
  | _ =>
    first
    | exact ⟨.inl rfl, fun _ => .inl ⟨rfl, rfl⟩⟩
    | exact ⟨.inl rfl, by simp [ApiPc.stopFlagged]⟩

theorem stopFlagged_held {p : ApiPc D} (h : p.stopFlagged = true) : .lifecycle ∈ p.held := by
  cases p with
  | stop p => cases p <;> simp_all [ApiPc.stopFlagged, ApiPc.held, StopPc.held]
  | _ => cases h

/-- In that section of `stop` the flag is set. -/
def StopFlag (w : World D) : Prop := ∀ t, (w.api t).stopFlagged = true → w.impl.stopping = true

/-- No `StartRealtime` can be sent any more in the current session. -/
structure Silenced (w : World D) : Prop where
  sendStart : ∀ n, (w.workers n).pc ≠ .session .sendStart
  biasing : ∀ t, (w.api t).biasing = false
  ended : w.impl.stopping = true ∨
    w.impl.sessionStarted = false ∧ ∀ n p, (w.workers n).pc ≠ .session p

/-- A thread that may clear the flag has found no worker. -/
theorem Orderly.no_session (ho : Orderly w) (hsh : Shut w)
    (hrole : (w.api t).role = .quiet ∨ (w.api t).role = .cleared) :
    w.impl.sessionStarted = false ∧ ∀ n, (w.workers n).pc.running = false := by
  obtain ⟨hworker, hjoining⟩ := ho.life.resting t hrole
  have hnone : ∀ n, (w.workers n).pc.running = false := fun n =>
    eq_false_of_ne_true (ho.life.not_executing hworker hjoining n)
  exact ⟨(hsh.closed fun n => shut_of_not_running (hnone n)).2, hnone⟩

theorem check_next {p : ApiPc D} {r : ApiNext D} (hnext : apiNext w t c p = some r)
    (hp : p.biasing = false) (hr : r.pc.biasing = true) : w.impl.biasAllowed = true := by
  cases apiNext_step hnext with
  | biasAllowed h => exact h
  | biasSent | biasFailed | biasRestarted | biasRestartFailed | biasReset => cases hp
  | _ => cases hr

/-- A thread outside of the sending section of `bias` sends no `StartRealtime`. -/
theorem apiNext_no_start {p : ApiPc D} {r : ApiNext D} (hnext : apiNext w t c p = some r)
    (hp : p.biasing = false) (t' : Tid) (s : Nat) (ok : Bool) :
    .sent t' s .startRealtime ok ∉ r.events := by
  intro he
  cases apiNext_step hnext with
  | stopCommand _ hsend =>
    unfold Impl.send at hsend
    split at hsend
    · cases hsend; simp at he
    · cases c <;> cases hsend <;> simp at he
  | biasSent | biasFailed | biasRestarted | biasRestartFailed | biasReset => cases hp
  | _ => simp at he

theorem afterRecord_pc {i : Impl D} {worker : Worker D} {outcome : Option SessionResult}
    {events : List (Event D)} :
    (afterRecord i worker n outcome events).worker.pc ≠ .session .sendStart := by
  intro h
  cases outcome <;> cases h

theorem recordNext_not_sendStart [Double D] {worker : Worker D} {p : RecordPc D} {r : RunNext D}
    (hnext : recordNext config w n c worker p = some r) : r.worker.pc ≠ .session .sendStart := by
  cases p <;> simp only [recordNext] at hnext <;> (repeat' split at hnext) <;> cases hnext <;>
    first | exact afterRecord_pc | simp

section
variable [DecidableEq D] [Double D] {worker : Worker D} {r : RunNext D}

theorem StopFlag.move (h : StopFlag w) (ho : Orderly w) (hm : Moved config w w' l) :
    StopFlag w' := by
  cases hm with
  | tick | spurious => exact h
  | call t call hidle hmay =>
    intro t' ht'
    by_cases ht : t' = t
    · subst ht
      rw [World.enter_api, Function.update_self] at ht'
      cases call <;> cases ht'
    · rw [World.enter_api, Function.update_of_ne ht] at ht'
      exact h t' ht'
  | run n c r hnext htake =>
    intro t' ht'
    rw [World.applyRun_impl, (runNext_control hnext).stopping]
    exact h t' ht'
  | api t c r hnext htake =>
    obtain ⟨hflag, hpc⟩ := apiNext_stopping hnext
    intro t' ht'
    rw [World.applyApi_impl]
    by_cases ht : t' = t
    · subst ht
      rw [World.applyApi_api, Function.update_self] at ht'
      rcases hpc ht' with ⟨hold, hsame⟩ | htrue
      · exact hsame.trans (h t' hold)
      · exact htrue
    · rw [World.applyApi_api, Function.update_of_ne ht] at ht'
      rcases hflag with hsame | htrue | hrole
      · exact hsame.trans (h t' ht')
      · exact htrue
      · -- both threads would hold the lifecycle mutex
        have hheld := held_of_exclusive (w.api t) (by
          rcases hrole with hr | hr <;> simp [hr, Role.exclusive])
        exact absurd (ho.locked.exclusive (stopFlagged_held ht') hheld) ht

theorem Reachable.stopFlag (h : Reachable config w l) : StopFlag w :=
  h.induction (I := fun v _ => StopFlag v) (fun _ _ h => by cases h)
    fun hv hi hm => hi.move hv.orderly hm

/-- Only `sendStart` sends `StartRealtime` on a worker and marks the session as started. -/
theorem runNext_no_start {p : RunPc D} (hnext : runNext config w n c worker p = some r)
    (hp : p ≠ .session .sendStart) :
    (∀ t s ok, .sent t s .startRealtime ok ∉ r.events) ∧
    (r.impl.sessionStarted = true → w.impl.sessionStarted = true) := by
  cases ho : p.onWire with
  | false =>
    have hq := runNext_quiet hnext ho
    exact ⟨fun t s ok he => by simpa [Wire.heeds] using hq.events _ he,
      fun hs => hq.same.started ▸ hs⟩
  | true =>
    cases p with
    | top =>
      simp only [runNext] at hnext
      split at hnext <;> cases hnext <;> exact ⟨by simp, id⟩
    | close context =>
      simp only [runNext] at hnext
      split at hnext
      · split at hnext <;> cases hnext
        rename_i hsend
        refine ⟨fun t s ok he => ?_, fun h => by cases h⟩
        unfold Impl.send at hsend
        split at hsend
        · cases hsend; simp at he
        · cases c <;> cases hsend <;> simp at he
      · cases hnext; exact ⟨by simp, id⟩
    | closeTransport context =>
      cases hnext
      refine ⟨fun t s ok he => ?_, id⟩
      simp only [Impl.closedEvents] at he
      split at he <;> simp at he
    | session q =>
      cases q with
      | connecting => cases hnext; exact ⟨by simp, id⟩
      | connect =>
        simp only [runNext, sessionNext, Impl.closedEvents] at hnext
        split at hnext <;> cases hnext
        · refine ⟨?_, id⟩
          split <;> simp
        · exact ⟨by simp, id⟩
      | sendStart => exact absurd rfl hp
      | record q =>
        cases q with
        | account =>
          simp only [runNext, sessionNext, recordNext] at hnext
          split at hnext
          · cases hnext; exact ⟨by simp, id⟩
          · rename_i haccount
            obtain ⟨-, rfl, -⟩ := account_some haccount
            split at hnext <;> cases hnext
            · rename_i outcome _
              cases outcome <;> exact ⟨by simp [afterRecord], id⟩
            · exact ⟨by simp, id⟩
        | _ => cases ho
      | _ => cases ho
    | _ => cases ho

theorem runNext_to_sendStart {p : RunPc D} (hnext : runNext config w n c worker p = some r)
    (hpc : r.worker.pc = .session .sendStart) :
    p = .session .command ∧ w.impl.stopping = false := by
  cases p with
  | session q =>
    cases q with
    | record q => exact absurd hpc (recordNext_not_sendStart hnext)
    | command =>
      simp only [runNext, sessionNext] at hnext
      split at hnext <;> cases hnext
      · cases hpc
      · exact ⟨rfl, eq_false_of_ne_true ‹_›⟩
    | pollCheck =>
      cases hnext
      simp only [RunPc.session.injEq] at hpc
      split at hpc <;> cases hpc
    | _ =>
      simp only [runNext, sessionNext] at hnext
      (repeat' split at hnext) <;> cases hnext <;> cases hpc
  | closeTransport context => cases hnext; cases context <;> cases hpc
  | raised | finalFaulted =>
    cases hnext
    dsimp only at hpc
    split at hpc <;> cases hpc
  | _ =>
    simp only [runNext] at hnext
    (repeat' split at hnext) <;> cases hnext <;> cases hpc

theorem runNext_to_session {p : RunPc D} {q : SessionPc D}
    (hnext : runNext config w n c worker p = some r) (hpc : r.worker.pc = .session q) :
    (∃ q', p = .session q') ∨ .sessionBegan n ∈ r.events := by
  cases p with
  | session q' => exact .inl ⟨q', rfl⟩
  | top =>
    simp only [runNext] at hnext
    split at hnext <;> cases hnext
    · cases hpc
    · exact .inr (List.mem_singleton_self _)
  | closeTransport context => cases hnext; cases context <;> cases hpc
  | raised | finalFaulted =>
    cases hnext
    dsimp only at hpc
    split at hpc <;> cases hpc
  | _ =>
    simp only [runNext] at hnext
    (repeat' split at hnext) <;> cases hnext <;> cases hpc

/-- The silence lasts until a session begins. -/
theorem Silenced.move (h : Silenced w) (ho : Orderly w) (hsh : Shut w)
    (hm : Moved config w w' l) (hl : ∀ e ∈ l, e.beginsSession = false) :
    Silenced w' ∧ ∀ t s ok, .sent t s .startRealtime ok ∉ l := by
  cases hm with
  | tick | spurious => exact ⟨⟨h.sendStart, h.biasing, h.ended⟩, by simp⟩
  | call t call hidle hmay =>
    refine ⟨⟨h.sendStart, fun t' => ?_, h.ended⟩, by simp⟩
    by_cases ht : t' = t
    · subst ht
      rw [World.enter_api, Function.update_self]
      cases call <;> rfl
    · rw [World.enter_api, Function.update_of_ne ht]
      exact h.biasing t'
  | run n c r hnext htake =>
    obtain ⟨hevents, hstarted⟩ := runNext_no_start hnext (h.sendStart n)
    have hcontrol := (runNext_control hnext).stopping
    refine ⟨⟨fun k hk => ?_, h.biasing, ?_⟩, hevents⟩
    · by_cases hkn : k = n
      · subst hkn
        rw [World.applyRun_workers, Function.update_self] at hk
        obtain ⟨hpc, hfalse⟩ := runNext_to_sendStart hnext hk
        rcases h.ended with htrue | ⟨-, hnone⟩
        · simp [htrue] at hfalse
        · exact hnone k _ hpc
      · rw [World.applyRun_workers, Function.update_of_ne hkn] at hk
        exact h.sendStart k hk
    · rcases h.ended with htrue | ⟨hfalse, hnone⟩
      · exact .inl (hcontrol.trans htrue)
      · refine .inr ⟨eq_false_of_ne_true fun hs => ?_, fun k q hk => ?_⟩
        · simp [hstarted hs] at hfalse
        · by_cases hkn : k = n
          · subst hkn
            rw [World.applyRun_workers, Function.update_self] at hk
            rcases runNext_to_session hnext hk with ⟨q', hpc⟩ | hbegan
            · exact hnone k q' hpc
            · cases hl _ hbegan
          · rw [World.applyRun_workers, Function.update_of_ne hkn] at hk
            exact hnone k q hk
  | api t c r hnext htake =>
    have hworkers : ∀ k q, ((w.applyApi config t r).workers k).pc = .session q →
        (w.workers k).pc = .session q := by
      intro k q hk
      by_cases hc : k = w.created
      · subst hc
        cases hspawn : r.spawn <;> simp_all [World.applyApi]
      · rwa [applyApi_workers_ne hc] at hk
    refine ⟨⟨fun k hk => h.sendStart k (hworkers k _ hk), fun t' => ?_, ?_⟩,
      apiNext_no_start hnext (h.biasing t)⟩
    · by_cases ht : t' = t
      · subst ht
        rw [World.applyApi_api, Function.update_self]
        refine eq_false_of_ne_true fun hb => ?_
        have hallowed := check_next hnext (h.biasing t') hb
        simp only [Impl.biasAllowed, Bool.not_eq_true', Bool.or_eq_false_iff,
          Bool.not_eq_false'] at hallowed
        rcases h.ended with htrue | ⟨hfalse, -⟩
        · simp [htrue] at hallowed
        · simp [hfalse] at hallowed
      · rw [World.applyApi_api, Function.update_of_ne ht]
        exact h.biasing t'
    · have hstarted := (apiNext_shut hnext).2
      have hkeep : (w.impl.sessionStarted = false ∧ ∀ n p, (w.workers n).pc ≠ .session p) →
          r.impl.sessionStarted = false ∧
            ∀ n p, ((w.applyApi config t r).workers n).pc ≠ .session p := by
        rintro ⟨hfalse, hnone⟩
        exact ⟨hstarted.elim (·.trans hfalse) id, fun k q hk => hnone k q (hworkers k q hk)⟩
      rcases (apiNext_stopping hnext).1 with hsame | htrue | hrole
      · rcases h.ended with htrue | hover
        · exact .inl (hsame.trans htrue)
        · exact .inr (hkeep hover)
      · exact .inl htrue
      · obtain ⟨hfalse, hnone⟩ := ho.no_session hsh hrole
        refine .inr (hkeep ⟨hfalse, fun n p hpc => ?_⟩)
        have := hnone n
        simp [hpc, RunPc.running] at this

/-- After the command section of `stop` the client is silenced. -/
theorem silenced_of_stop (h : Reachable config w l) (hpc : w.api t = .stop .command)
    (hstep : step config w (.api t c) = some (w', l')) : Silenced w' := by
  have h' := h.step hstep
  have ho := h'.orderly
  have hpc' : w'.api t = .stop .shutdown := by
    obtain ⟨r, hnext, -, rfl, -⟩ := step_api hstep
    rw [World.applyApi_api, Function.update_self]
    simp only [hpc, apiNext, stopNext] at hnext
    (repeat' split at hnext) <;> cases hnext <;> rfl
  have hlock := (ho.locked .command t).mpr (.inl (by simp [hpc', ApiPc.held, StopPc.held]))
  refine ⟨fun n hn => ?_, fun t' => eq_false_of_ne_true fun hb => ?_,
    .inl (h'.stopFlag t (by simp [hpc', ApiPc.stopFlagged]))⟩
  · have hown := (ho.locked .command (.worker n)).mpr
      (.inr (by simp [World.workerHeld, hn, RunPc.held, SessionPc.held]))
    obtain rfl : t = .worker n := Option.some.inj (hlock.symm.trans hown)
    obtain ⟨_, _, hcb⟩ := inCallback_iff.mp (ho.nested.inCallback n (by simp [hpc']))
    simp [hn] at hcb
  · obtain rfl : t = t' := Option.some.inj
      (hlock.symm.trans ((ho.locked .command t').mpr (.inl (biasing_held hb))))
    simp [hpc', ApiPc.biasing] at hb

/-- The wire discipline: the attempts on every socket are the beginning of a word, and the whole
of one once the socket is closed; so are the attempts of a session; `SetSoftwareBias` follows a
record that was processed in the same session; and after the command section of `stop` no
`StartRealtime` follows in the session. -/
theorem wire_discipline (h : Reachable config w l) :
    (∀ s, ∃ rest, Word (attemptsOn s l ++ rest)) ∧
    (∀ s l₁ l₂, l = l₁ ++ .closed s :: l₂ → Word (attemptsOn s l₁) ∧ attemptsOn s l₂ = []) ∧
    (∃ rest, Word ((currentSession l).filterMap Event.attempt ++ rest)) ∧
    (∀ t s ok l₁ l₂, l = l₁ ++ .sent t s .setSoftwareBias ok :: l₂ →
      ∃ n r, .processed n r ∈ currentSession l₁) ∧
    ∀ t c w₁ l₁ w₂ l₂, w.api t = .stop .command → step config w (.api t c) = some (w₁, l₁) →
      (machine config).Run w₁ l₂ w₂ → (∀ e ∈ l₂, e.beginsSession = false) →
      ∀ t' s ok, .sent t' s .startRealtime ok ∉ l₂ := by
  obtain ⟨m, hrun, -⟩ := h.onWire
  have hreads := Wire.reads_of_run hrun
  refine ⟨fun s => ?_, fun s l₁ l₂ hl => ?_, hreads.session.extends, hreads.biased, ?_⟩
  · by_cases hs : m.socket = some s
    · exact (hreads.current s hs).2.extends
    · exact ⟨[], by simpa using hreads.past s hs⟩
  · obtain ⟨-, -, hword, hnil⟩ := hreads.closed s l₁ l₂ hl
    exact ⟨hword, hnil⟩
  · intro t c w₁ l₁ w₂ l₂ hpc hstep hrun hl
    have h₁ := h.step hstep
    have hsilent : Silenced w₂ ∧ ∀ t' s ok, .sent t' s .startRealtime ok ∉ l₂ := by
      refine hrun.invariant (I := fun v k => (∀ e ∈ k, e.beginsSession = false) →
        Silenced v ∧ ∀ t' s ok, .sent t' s .startRealtime ok ∉ k)
        (fun _ => ⟨silenced_of_stop h hpc hstep, by simp⟩) ?_ hl
      intro v k a v' k' hv hi hstep' hk
      obtain ⟨hs, hnot⟩ := hi fun e he => hk e (List.mem_append_left _ he)
      obtain ⟨hs', hnot'⟩ := hs.move (h₁.run hv).orderly (h₁.run hv).shut (moved_of_step hstep')
        fun e he => hk e (List.mem_append_right _ he)
      refine ⟨hs', fun t' s ok he => ?_⟩
      rcases List.mem_append.mp he with he | he
      · exact hnot t' s ok he
      · exact hnot' t' s ok he
    exact hsilent.2

end

/-- The datagram of a record with the given sequence numbers, below 256. -/
def plainRecord (rdt ft : UInt8) : List UInt8 :=
  [0, 0, 0, rdt, 0, 0, 0, ft] ++ List.replicate 28 0

/-- Worker `n` receives a datagram with a valid record and delivers it. -/
def receiveActions (n : Nat) (datagram : List UInt8) : List (Action Rat) :=
  List.replicate 3 (.run n .go) ++ [.run n .succeeds, .run n .go, .run n (.datagram datagram)] ++
    List.replicate 5 (.run n .go) ++ [.run n .succeeds, .run n .succeeds] ++
    List.replicate 4 (.run n .go)

/-- `bias` on thread `t`, while the client is streaming. -/
def biasActions (t : Tid) : List (Action Rat) :=
  .call t .bias :: List.replicate 3 (.api t .go) ++
    [.api t .succeeds, .api t .succeeds, .api t .go]

/-- A client that has delivered a record and was biased. -/
def biasedClient : World Rat × List (Event Rat) :=
  (machine (demoConfig .failStop)).perform (World.initial 1)
    (startActions (.client 0) ++ openActions 0 ++ receiveActions 0 (List.replicate 36 0) ++
      biasActions (.client 0))

theorem wire_discipline_biasedClient :
    attemptsOn 0 biasedClient.2 =
        [(.startRealtime, true), (.setSoftwareBias, true), (.startRealtime, true)] ∧
      ∃ rest, Word (attemptsOn 0 biasedClient.2 ++ rest) :=
  ⟨by decide +kernel, (wire_discipline (w := biasedClient.1)
    ⟨1, Machine.run_perform (by decide +kernel)⟩).1 0⟩

end NetFT.Client
