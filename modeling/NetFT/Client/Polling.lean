import NetFT.Client.Windows

/-! How long a client on Windows stays in `receive`: after a request to shut down for one interval
at most (`windows_shutdown_heeded`), and otherwise for the time it is given, with one `WSAPoll` for
each interval of it (`windows_receive_bounded`). -/

namespace NetFT.Client
open Detail Library

variable {D : Type} {config : Config D} {s s' : WindowsWorld D} {n : Nat} {c : Choice D}
  {l : List (Event D)} {p : WindowsPc}

/-- A call of `receive` of a worker. -/
structure Polling where
  start : TimePoint := 0
  remaining : Nat := 0
  /-- The steps after the first section. -/
  steps : Nat := 0
  /-- The calls of `WSAPoll`. -/
  polls : Nat := 0
  /-- The time spent in `WSAPoll`. -/
  polled : Nat := 0
  deriving DecidableEq, Repr

/-- A step from `p`. -/
def Polling.step (g : Polling) (p : WindowsPc) : Polling :=
  { g with
    steps := g.steps + 1
    polls :=
      match p with
      | .now _ => g.polls + 1
      | _ => g.polls }

def updatePolling (n : Nat) (g : Polling) (s : WindowsWorld D) : Action D → Polling
  | .run k _ =>
    if k = n then
      match s.receive n, (s.world.workers n).pc with
      | some p, _ => g.step p
      | none, .session (.receive remaining) => { start := s.world.clock, remaining }
      | none, _ => g
    else g
  | .tick ticks =>
    match s.receive n with
    | some (.poll ..) => { g with polled := g.polled + ticks }
    | _ => g
  | _ => g

section
variable [DecidableEq D] [Double D]

namespace WindowsWorld

/-- `WSAPoll` does not overrun its timeout. -/
def InTime (n : Nat) (s : WindowsWorld D) : Action D → Prop
  | .tick ticks => ∀ deadline since milliseconds,
    s.receive n = some (.poll deadline since milliseconds) →
      ticks + s.world.clock ≤ milliseconds * ticksPerMillisecond + since
  | _ => True

/-- `WSAPoll` does not expire before its timeout. -/
def NotEarly (n : Nat) (s : WindowsWorld D) : Action D → Prop
  | .run k .expires => k = n → ∀ deadline since milliseconds,
    s.receive n = some (.poll deadline since milliseconds) →
      milliseconds * ticksPerMillisecond + since ≤ s.world.clock
  | _ => True

/-- A step of worker `n` does not bring it out of `receive`. -/
def Stays (n : Nat) (s : WindowsWorld D) : Action D → Prop
  | .run k c => k = n → ∃ p p', s.receive n = some p ∧
    receiveNext s.world.impl.transport s.world.clock c p = some (.goes p')
  | _ => True

/-- Decides `InTime`. -/
def inTime (n : Nat) (s : WindowsWorld D) : Action D → Bool
  | .tick ticks =>
    match s.receive n with
    | some (.poll _ since milliseconds) =>
      ticks + s.world.clock ≤ milliseconds * ticksPerMillisecond + since
    | _ => true
  | _ => true

/-- Decides `NotEarly`. -/
def notEarly (n : Nat) (s : WindowsWorld D) : Action D → Bool
  | .run _ .expires =>
    match s.receive n with
    | some (.poll _ since milliseconds) =>
      milliseconds * ticksPerMillisecond + since ≤ s.world.clock
    | _ => true
  | _ => true

/-- Decides `Stays`. -/
def stays (n : Nat) (s : WindowsWorld D) : Action D → Bool
  | .run k c => k ≠ n ||
    match (s.receive n).bind (receiveNext s.world.impl.transport s.world.clock c) with
    | some (.goes _) => true
    | _ => false
  | _ => true

omit [DecidableEq D] [Double D] in
theorem inTime_of_test {a : Action D} (h : inTime n s a = true) : InTime n s a := by
  cases a with
  | tick ticks => intro _ _ _ hp; simpa [inTime, hp] using h
  | _ => trivial

omit [DecidableEq D] [Double D] in
theorem notEarly_of_test {a : Action D} (h : notEarly n s a = true) : NotEarly n s a := by
  cases a with
  | run k c =>
    cases c with
    | expires => intro _ _ _ _ hp; simpa [notEarly, hp] using h
    | _ => trivial
  | _ => trivial

omit [DecidableEq D] [Double D] in
theorem stays_of_test {a : Action D} (h : stays n s a = true) : Stays n s a := by
  cases a with
  | run k c =>
    intro hk
    simp only [stays, hk, ne_eq, not_true_eq_false, decide_false, Bool.false_or] at h
    split at h
    · obtain ⟨p, hp, hnext⟩ := Option.bind_eq_some_iff.mp ‹_›
      exact ⟨p, _, hp, hnext⟩
    · cases h
  | _ => trivial

/-- How a worker has come to stand in `receive` after a step. -/
inductive Received (s : WindowsWorld D) (a : Action D) (s' : WindowsWorld D) (n : Nat)
    (p : WindowsPc) : Prop
  | enters (c : Choice D) (remaining : Nat) (ha : a = .run n c) (hnone : s.receive n = none)
    (hpc : (s.world.workers n).pc = .session (.receive remaining)) (hworld : s'.world = s.world)
    (hp : p = .check (s.world.clock + remaining))
  | goes (c : Choice D) (p₀ : WindowsPc) (ha : a = .run n c) (hp : s.receive n = some p₀)
    (hworld : s'.world = s.world)
    (hnext : receiveNext s.world.impl.transport s.world.clock c p₀ = some (.goes p))
  /-- The other threads do not take back the request to shut down. -/
  | stays (ha : ∀ c, a ≠ .run n c) (hp : s.receive n = some p)
    (hshutdown : s.world.impl.transport.shutdownRequested = true →
      s'.world.impl.transport.shutdownRequested = true)
    (hclock : s'.world.clock = s.world.clock ∨ ∃ ticks, a = .tick ticks ∧
      s'.world.clock = s.world.clock + ticks)

omit [DecidableEq D] [Double D] in
theorem received_apply {k : Nat} {c : Choice D} (r : ReceiveNext) (hne : n ≠ k)
    (hp : (s.apply k r).receive n = some p) : Received s (.run k c) (s.apply k r) n p := by
  refine .stays (by simp [Ne.symm hne]) ?_ ?_ (.inl ?_)
  · cases r <;> simpa [WindowsWorld.apply, hne] using hp
  · cases r <;> exact id
  · cases r <;> rfl

omit [DecidableEq D] [Double D] in
theorem receiveFirst_goes {transport : UdpTransport} {clock : TimePoint} {remaining : Nat}
    (h : receiveFirst transport clock remaining = .goes p) : p = .check (clock + remaining) := by
  unfold receiveFirst at h
  (repeat' split at h) <;> cases h
  rfl

omit [DecidableEq D] [Double D] in
theorem apply_self {r : ReceiveNext} (hp : (s.apply n r).receive n = some p) :
    r = .goes p ∧ (s.apply n r).world = s.world := by
  cases r with
  | goes q =>
    have hq : some q = some p := by simpa [WindowsWorld.apply] using hp
    exact ⟨congrArg _ (Option.some.inj hq), rfl⟩
  | returns | throws => simp [WindowsWorld.apply] at hp

/-- Only a worker itself enters `receive` and moves there, and while it is there no other one
connects. -/
theorem received {a : Action D} (ho : Orderly s.toWorld)
    (hstep : windowsStep config s a = some (s', l)) (hp : s'.receive n = some p) :
    Received s a s' n p := by
  cases a with
  | tick ticks => cases hstep; exact .stays (by simp) hp id (.inr ⟨ticks, rfl, rfl⟩)
  | spurious t => cases hstep; exact .stays (by simp) hp id (.inl rfl)
  | call t call =>
    obtain ⟨⟨w', l'⟩, hstep₁, heq⟩ := Option.map_eq_some_iff.mp hstep
    cases heq
    simp only [step] at hstep₁
    (repeat' split at hstep₁) <;> cases hstep₁
    exact .stays (by simp) hp id (.inl rfl)
  | api t c =>
    obtain ⟨⟨w', l'⟩, hstep₁, heq⟩ := Option.map_eq_some_iff.mp hstep
    cases heq
    obtain ⟨r, hnext, -, rfl, -⟩ := step_api hstep₁
    refine .stays (by simp) hp (fun hshutdown => ?_) (.inl rfl)
    rcases apiNext_transport hnext with ⟨htransport, -⟩ | ⟨-, himpl⟩
    · rwa [World.applyApi_impl, htransport]
    · rw [World.applyApi_impl, himpl]
      rfl
  | run k c =>
    simp only [windowsStep] at hstep
    split at hstep
    · rename_i p₀ hp₀
      obtain ⟨r, hnext, heq⟩ := Option.map_eq_some_iff.mp hstep
      cases heq
      by_cases hk : n = k
      · subst hk
        obtain ⟨rfl, hworld⟩ := apply_self hp
        exact .goes c p₀ rfl hp₀ hworld hnext
      · exact received_apply r hk hp
    · rename_i hnone
      split at hstep
      · rename_i remaining hpc
        cases hstep
        by_cases hk : n = k
        · subst hk
          obtain ⟨hgoes, hworld⟩ := apply_self hp
          exact .enters c remaining rfl hnone hpc hworld (receiveFirst_goes hgoes)
        · exact received_apply _ hk hp
      · obtain ⟨⟨w', l'⟩, hstep₁, heq⟩ := Option.map_eq_some_iff.mp hstep
        cases heq
        obtain ⟨r, hnext, -, rfl, -⟩ := step_run hstep₁
        have hp : s.receive n = some p := hp
        have hk : k ≠ n := by
          rintro rfl
          rw [hnone] at hp
          cases hp
        refine .stays (by simp [hk]) hp (fun hshutdown => ?_) (.inl rfl)
        rcases runNext_transport hnext with ⟨htransport, -⟩ | ⟨hpc, -, -⟩ | ⟨-, himpl⟩
        · rwa [World.applyRun_impl, htransport]
        · have hexec : s.toWorld.executing n := by
            rw [World.executing, toWorld_of_some hp]
            rfl
          have hexec' : s.toWorld.executing k := by
            rw [World.executing, toWorld_of_none hnone, hpc]
            rfl
          exact absurd (ho.executing_unique hexec hexec') hk
        · rw [World.applyRun_impl, himpl]
          rfl

/-- A `WSAPoll` has been called before, for at most one slice. -/
def Sliced (s : WindowsWorld D) : Prop := ∀ n deadline since milliseconds,
  s.receive n = some (.poll deadline since milliseconds) →
    since ≤ s.world.clock ∧ milliseconds ≤ kShutdownCheckIntervalMilliseconds

theorem sliced_of_run {clock : TimePoint}
    (h : (windowsMachine config).Run { world := World.initial clock } l s) : s.Sliced := by
  refine h.invariant (I := fun v _ => v.Sliced) (fun n _ _ _ h => by cases h) ?_
  intro v k a v' k' hrun hi hstep n deadline since milliseconds hp
  have ho := (waits_of_run hrun).2.orderly
  cases received ho hstep hp with
  | enters c remaining ha hnone hpc hworld hp' => cases hp'
  | goes c p₀ ha hp₀ hworld hnext =>
    rw [hworld]
    cases p₀ with
    | now d => cases hnext; exact ⟨le_rfl, min_le_left ..⟩
    | _ =>
      simp only [receiveNext] at hnext
      (repeat' split at hnext) <;> cases hnext
  | stays ha hp₀ hshutdown hclock =>
    obtain ⟨hle, hslice⟩ := hi n _ _ _ hp₀
    refine ⟨?_, hslice⟩
    rcases hclock with hclock | ⟨ticks, -, hclock⟩
    · rwa [hclock]
    · exact hclock ▸ le_trans hle (Nat.le_add_right _ _)

/-- The other threads do not move a worker in `receive`. -/
theorem receive_other {a : Action D} (hstep : windowsStep config s a = some (s', l))
    (ha : ∀ c, a ≠ .run n c) : s'.receive n = s.receive n := by
  cases a with
  | tick | spurious => cases hstep; rfl
  | call | api =>
    obtain ⟨r, -, heq⟩ := Option.map_eq_some_iff.mp hstep
    cases heq
    rfl
  | run k c =>
    have hk : n ≠ k := by
      rintro rfl
      exact ha c rfl
    have happly : ∀ r, (s.apply k r).receive n = s.receive n := by
      intro r
      cases r <;> simp [WindowsWorld.apply, hk]
    simp only [windowsStep] at hstep
    (repeat' split at hstep)
    · obtain ⟨r, -, heq⟩ := Option.map_eq_some_iff.mp hstep
      cases heq
      exact happly r
    · cases hstep
      exact happly _
    · obtain ⟨r, -, heq⟩ := Option.map_eq_some_iff.mp hstep
      cases heq
      rfl

omit [DecidableEq D] [Double D] in
/-- Only a tick moves the clock. -/
theorem clock_other {a : Action D}
    (hclock : s'.world.clock = s.world.clock ∨ ∃ ticks, a = .tick ticks ∧
      s'.world.clock = s.world.clock + ticks)
    (htick : ¬ ∃ ticks, a = .tick ticks) : s'.world.clock = s.world.clock := by
  rcases hclock with hclock | ⟨ticks, ha, -⟩
  · exact hclock
  · exact absurd ⟨ticks, ha⟩ htick

/-- A worker that is to stay in `receive` stays there. -/
theorem receive_stays {a : Action D} (hstep : windowsStep config s a = some (s', l))
    (hp : s.receive n = some p) (hstays : Stays n s a) : ∃ p', s'.receive n = some p' := by
  by_cases ha : ∃ c, a = .run n c
  · obtain ⟨c, rfl⟩ := ha
    obtain ⟨p₀, p', hp₀, hnext⟩ := hstays rfl
    simp only [windowsStep, hp₀, hnext] at hstep
    cases hstep
    exact ⟨p', by simp [WindowsWorld.apply]⟩
  · exact ⟨p, (receive_other hstep fun c hc => ha ⟨c, hc⟩).trans hp⟩

end WindowsWorld

omit [DecidableEq D] [Double D] in
theorem updatePolling_run {g : Polling} (hp : s.receive n = some p) :
    updatePolling n g s (.run n c) = g.step p := by
  simp only [updatePolling, if_true, hp]

omit [DecidableEq D] [Double D] in
theorem updatePolling_other {g : Polling} {a : Action D} (ha : ∀ c, a ≠ .run n c)
    (htick : ∀ ticks, a ≠ .tick ticks) : updatePolling n g s a = g := by
  cases a with
  | run k c => exact if_neg fun hk => ha c (congrArg (Action.run · c) hk)
  | tick ticks => exact absurd rfl (htick ticks)
  | _ => rfl

/-! ## After a request to shut down -/

/-- The steps that a worker still makes in `receive` after a request to shut down. -/
def WindowsPc.patience : WindowsPc → Nat
  | .now _ | .revents => 2
  | .poll .. | .recv => 1
  | .check _ | .ready | .failed .. => 0

omit [DecidableEq D] [Double D] in
theorem receiveNext_patience {transport : UdpTransport} {clock : TimePoint} {p' : WindowsPc}
    (hshutdown : transport.shutdownRequested = true)
    (hnext : receiveNext transport clock c p = some (.goes p')) : p'.patience < p.patience := by
  cases p <;> simp only [receiveNext, hshutdown, if_true] at hnext <;>
    (repeat' split at hnext) <;> cases hnext <;> simp only [WindowsPc.patience] <;> omega

namespace WindowsWorld

/-- What a worker in `receive` owes after a request to shut down: at most one more `WSAPoll`. -/
structure Heeds (n bound : Nat) (s : WindowsWorld D) (g : Polling) : Prop where
  shutdown : s.world.impl.transport.shutdownRequested = true
  stays : ∃ p, s.receive n = some p ∧ g.steps + p.patience ≤ bound
  /-- Before its next `WSAPoll` it has not polled yet. -/
  unpolled : ∀ deadline, s.receive n = some (.now deadline) → g.polled = 0
  /-- In `WSAPoll`, the time before and since its beginning is over. -/
  polling : ∀ deadline since milliseconds,
    s.receive n = some (.poll deadline since milliseconds) → g.polled + since ≤ s.world.clock
  /-- It polls no longer than one slice. -/
  polled : g.polled ≤ kShutdownCheckIntervalMilliseconds * ticksPerMillisecond

theorem Heeds.step {bound : Nat} {g : Polling} {a : Action D} (h : s.Heeds n bound g)
    (ho : Orderly s.toWorld) (hsliced : s.Sliced) (hintime : InTime n s a) (hstays : Stays n s a)
    (hstep : windowsStep config s a = some (s', l)) : s'.Heeds n bound (updatePolling n g s a) := by
  obtain ⟨p, hp, hbound⟩ := h.stays
  obtain ⟨p', hp'⟩ := receive_stays hstep hp hstays
  cases received ho hstep hp' with
  | enters c remaining ha hnone => rw [hnone] at hp; cases hp
  | goes c p₀ ha hp₀ hworld hnext =>
    subst ha
    obtain rfl : p₀ = p := Option.some.inj (hp₀.symm.trans hp)
    have hpatience := receiveNext_patience h.shutdown hnext
    rw [updatePolling_run hp]
    refine ⟨hworld ▸ h.shutdown, ⟨p', hp', ?_⟩, fun d hd => ?_, fun d since ms hd => ?_, h.polled⟩
    · simp only [Polling.step]
      omega
    · -- it has looked at the request
      obtain rfl := Option.some.inj (hp'.symm.trans hd)
      cases p₀ <;> simp only [receiveNext, h.shutdown, if_true] at hnext <;>
        (repeat' split at hnext) <;> cases hnext
    · obtain rfl := Option.some.inj (hp'.symm.trans hd)
      rw [hworld]
      cases p₀ with
      | now deadline => cases hnext; simp [Polling.step, h.unpolled _ hp]
      | _ => simp only [receiveNext] at hnext; (repeat' split at hnext) <;> cases hnext
  | stays ha hp₀ hshutdown hclock =>
    have hsame := receive_other hstep ha
    by_cases htick : ∃ ticks, a = .tick ticks
    · obtain ⟨ticks, rfl⟩ := htick
      cases hstep
      obtain rfl : p' = p := Option.some.inj (hp₀.symm.trans hp)
      cases p' with
      | poll deadline since ms =>
        have hpoll := h.polling _ _ _ hp
        have hend := hintime _ _ _ hp
        have hslice := Nat.mul_le_mul_right ticksPerMillisecond (hsliced _ _ _ _ hp).2
        refine ⟨h.shutdown, ⟨_, hp, ?_⟩, fun d hd => ?_, fun d since' ms' hd => ?_, ?_⟩ <;>
          simp only [updatePolling, hp]
        · exact hbound
        · rw [hp] at hd
          cases hd
        · rw [hp] at hd
          cases hd
          show g.polled + ticks + since ≤ s.world.clock + ticks
          omega
        · omega
      | _ =>
        have hg : updatePolling n g s (.tick ticks) = g := by simp only [updatePolling, hp]
        rw [hg]
        refine ⟨h.shutdown, ⟨_, hp, hbound⟩, h.unpolled, fun d since ms hd => ?_, h.polled⟩
        rw [hp] at hd
        cases hd
    · have hclock' := clock_other hclock htick
      rw [updatePolling_other ha fun ticks ha' => htick ⟨ticks, ha'⟩]
      refine ⟨hshutdown h.shutdown, ⟨p, hsame.trans hp, hbound⟩, ?_, ?_, h.polled⟩
      · rw [hsame]
        exact h.unpolled
      · rw [hsame, hclock']
        exact h.polling

end WindowsWorld

/-- From any state in which the transport is asked to shut down, in any run: as long as worker `n`
is in `receive` it has made at most as many steps there as its position allows, which are never more
than two, and has spent at most one interval of 50 ms in `WSAPoll`, and the request stands. -/
theorem windows_shutdown_heeded {clock : TimePoint}
    (h : (windowsMachine config).Run { world := World.initial clock } l s)
    (hp : s.receive n = some p) (hshutdown : s.world.impl.transport.shutdownRequested = true)
    {g : Polling} (hrun : ((windowsMachine config).withGhost (updatePolling n)).RunIf
      (fun v a => v.1.InTime n a ∧ v.1.Stays n a) (s, {}) l' (s', g)) :
    g.steps ≤ p.patience ∧ p.patience ≤ 2 ∧
      g.polled ≤ kShutdownCheckIntervalMilliseconds * ticksPerMillisecond ∧
      s'.world.impl.transport.shutdownRequested = true ∧ ∃ p', s'.receive n = some p' := by
  have hinit : s.Heeds n p.patience {} := by
    refine ⟨hshutdown, ⟨p, hp, by simp⟩, fun _ _ => rfl, fun d since ms hd => ?_, Nat.zero_le _⟩
    simpa using (WindowsWorld.sliced_of_run h _ _ _ _ hd).1
  have hheeds : s'.Heeds n p.patience g := by
    refine hrun.invariant (I := fun v _ => v.1.Heeds n p.patience v.2) hinit ?_
    intro v k a v' k' hv hi hok hstep
    obtain ⟨hstep, hghost⟩ := Machine.withGhost_step.mp hstep
    have hreach := h.trans hv.eraseGhost
    rw [hghost]
    exact hi.step (WindowsWorld.waits_of_run hreach).2.orderly
      (WindowsWorld.sliced_of_run hreach) hok.1 hok.2 hstep
  obtain ⟨p', hp', hbound⟩ := hheeds.stays
  refine ⟨by omega, ?_, hheeds.polled, hheeds.shutdown, p', hp'⟩
  cases p <;> simp [WindowsPc.patience]

end

/-- Another thread asks a worker in `WSAPoll` to stop. -/
def askedClient : WindowsWorld Rat × List (Event Rat) :=
  (windowsMachine (demoConfig .failStop)).perform { world := World.initial 1 }
    (sliceActions ++ .call (.client 1) .stop :: stopActions (.client 1))

/-- The poll of `askedClient` has expired. -/
def heededClient : (WindowsWorld Rat × Polling) × List (Event Rat) :=
  ((windowsMachine (demoConfig .failStop)).withGhost (updatePolling 0)).perform
    (askedClient.1, {}) [.tick (50 * ticksPerMillisecond), .run 0 .expires]

theorem windows_shutdown_heeded_heededClient :
    askedClient.1.receive 0 = slicedClient.1.receive 0 ∧
      heededClient.1.1.receive 0 = some (.check (1000 * ticksPerMillisecond + 1)) ∧
      heededClient.1.2.steps = 1 ∧
      heededClient.1.2.polled ≤ kShutdownCheckIntervalMilliseconds * ticksPerMillisecond := by
  have h : (windowsMachine (demoConfig .failStop)).Run { world := World.initial 1 } askedClient.2
      askedClient.1 := Machine.run_perform (by decide +kernel)
  have hp : askedClient.1.receive 0 = some (.poll (1000 * ticksPerMillisecond + 1)
      (50 * ticksPerMillisecond + 1) 50) := by decide +kernel
  have hrun : ((windowsMachine (demoConfig .failStop)).withGhost (updatePolling 0)).RunIf
      (fun v a => v.1.InTime 0 a ∧ v.1.Stays 0 a) (askedClient.1, {}) heededClient.2
      heededClient.1 :=
    Machine.runIf_perform (fun v a => WindowsWorld.inTime 0 v.1 a && WindowsWorld.stays 0 v.1 a)
      (by decide +kernel) fun v a ha =>
        (Bool.and_eq_true_iff.mp ha).imp WindowsWorld.inTime_of_test WindowsWorld.stays_of_test
  obtain ⟨-, -, hpolled, -⟩ := windows_shutdown_heeded h hp (by decide +kernel) hrun
  exact ⟨by decide +kernel, by decide +kernel, by decide +kernel, hpolled⟩

section
variable [DecidableEq D] [Double D]

/-! ## Before the deadline -/

omit [DecidableEq D] [Double D] in
theorem slice_bounds (remaining : Nat) :
    let slice := kShutdownCheckIntervalMilliseconds * ticksPerMillisecond
    let milliseconds :=
      min kShutdownCheckIntervalMilliseconds (timeoutMilliseconds (min remaining slice))
    min remaining slice ≤ milliseconds * ticksPerMillisecond ∧
      milliseconds * ticksPerMillisecond < remaining + ticksPerMillisecond := by
  intro slice milliseconds
  have hmilliseconds : milliseconds = min kShutdownCheckIntervalMilliseconds
      ((min remaining slice + (ticksPerMillisecond - 1)) / ticksPerMillisecond) :=
    congrArg (min _) (timeoutMilliseconds_slice (Nat.min_le_right ..))
  rw [hmilliseconds]
  simp only [slice, kShutdownCheckIntervalMilliseconds, ticksPerMillisecond]
  omega

omit [DecidableEq D] [Double D] in
/-- The slice covers the time left, or a whole interval, and exceeds the time left by less than a
millisecond. -/
theorem pollMilliseconds_bounds (deadline now : Nat) :
    min (deadline - now) (kShutdownCheckIntervalMilliseconds * ticksPerMillisecond) ≤
        pollMilliseconds deadline now * ticksPerMillisecond ∧
      pollMilliseconds deadline now * ticksPerMillisecond <
        deadline - now + ticksPerMillisecond := slice_bounds (deadline - now)

/-- What a worker in `receive` has polled so far: a slice that has expired before the deadline was a
whole interval. -/
def Polled (clock : TimePoint) (g : Polling) : WindowsPc → Prop
  | .check deadline | .now deadline =>
    g.remaining + g.start = deadline ∧
      g.polls * (kShutdownCheckIntervalMilliseconds * ticksPerMillisecond) ≤ g.remaining ∧
      g.polls * (kShutdownCheckIntervalMilliseconds * ticksPerMillisecond) + g.start ≤ clock ∧
      g.polled ≤ g.remaining ∧ g.polled + g.start ≤ clock
  | .poll deadline since milliseconds =>
    g.remaining + g.start = deadline ∧ milliseconds = pollMilliseconds deadline since ∧
      since ≤ clock ∧
      g.polls * (kShutdownCheckIntervalMilliseconds * ticksPerMillisecond) ≤
        g.remaining + kShutdownCheckIntervalMilliseconds * ticksPerMillisecond ∧
      g.polls * (kShutdownCheckIntervalMilliseconds * ticksPerMillisecond) + g.start ≤
        kShutdownCheckIntervalMilliseconds * ticksPerMillisecond + since ∧
      g.polled < g.remaining + ticksPerMillisecond ∧ g.polled + g.start ≤ clock
  | _ =>
    g.polls * (kShutdownCheckIntervalMilliseconds * ticksPerMillisecond) ≤
        g.remaining + kShutdownCheckIntervalMilliseconds * ticksPerMillisecond ∧
      g.polled < g.remaining + ticksPerMillisecond

omit [DecidableEq D] [Double D] in
theorem Polled.bounds {clock : TimePoint} {g : Polling} (h : Polled clock g p) :
    g.polls * (kShutdownCheckIntervalMilliseconds * ticksPerMillisecond) ≤
        g.remaining + kShutdownCheckIntervalMilliseconds * ticksPerMillisecond ∧
      g.polled < g.remaining + ticksPerMillisecond := by
  have hpos : 0 < ticksPerMillisecond := by decide
  cases p with
  | check | now =>
    obtain ⟨-, hpolls, -, hpolled, -⟩ := h
    exact ⟨by omega, by omega⟩
  | poll =>
    obtain ⟨-, -, -, hpolls, -, hpolled, -⟩ := h
    exact ⟨hpolls, hpolled⟩
  | _ => exact h

omit [DecidableEq D] [Double D] in
theorem Polled.later {clock clock' : TimePoint} {g : Polling} (h : Polled clock g p)
    (hle : clock ≤ clock') : Polled clock' g p := by
  cases p with
  | check | now =>
    obtain ⟨hdeadline, hpolls, hstart, hpolled, hpolling⟩ := h
    exact ⟨hdeadline, hpolls, le_trans hstart hle, hpolled, le_trans hpolling hle⟩
  | poll =>
    obtain ⟨hdeadline, hslice, hsince, hpolls, hstart, hpolled, hpolling⟩ := h
    exact ⟨hdeadline, hslice, le_trans hsince hle, hpolls, hstart, hpolled, le_trans hpolling hle⟩
  | _ => exact h

omit [DecidableEq D] [Double D] in
/-- Time passes in `WSAPoll`. -/
theorem Polled.polls {clock deadline since : TimePoint} {milliseconds ticks : Nat} {g : Polling}
    (h : Polled clock g (.poll deadline since milliseconds))
    (hintime : ticks + clock ≤ milliseconds * ticksPerMillisecond + since) :
    Polled (clock + ticks) { g with polled := g.polled + ticks }
      (.poll deadline since milliseconds) := by
  obtain ⟨hdeadline, hslice, hsince, hpolls, hstart, hpolled, hpolling⟩ := h
  obtain ⟨-, hlt⟩ := pollMilliseconds_bounds deadline since
  rw [← hslice] at hlt
  have hticks : ticks ≤ milliseconds * ticksPerMillisecond :=
    Nat.le_of_add_le_add_right (Nat.le_trans (Nat.add_le_add_left hsince ticks) hintime)
  refine ⟨hdeadline, hslice, le_trans hsince (Nat.le_add_right ..), hpolls, hstart, ?_, ?_⟩
  · show g.polled + ticks < g.remaining + ticksPerMillisecond
    -- after the deadline the timeout is zero
    simp only [ticksPerMillisecond] at hintime hlt hpolled hticks ⊢
    omega
  · show g.polled + ticks + g.start ≤ Nat.add clock ticks
    rw [Nat.add_eq]
    omega

omit [DecidableEq D] [Double D] in
theorem receiveNext_polled {transport : UdpTransport} {clock : TimePoint} {g : Polling}
    {p' : WindowsPc} (h : Polled clock g p)
    (hnext : receiveNext transport clock c p = some (.goes p'))
    (hearly : ∀ deadline since milliseconds, p = .poll deadline since milliseconds →
      c = .expires → milliseconds * ticksPerMillisecond + since ≤ clock) :
    Polled clock (g.step p) p' := by
  cases p with
  | check deadline =>
    simp only [receiveNext] at hnext
    split at hnext <;> cases hnext
    exact h
  | now deadline =>
    cases hnext
    obtain ⟨hdeadline, hpolls, hstart, hpolled, hpolling⟩ := h
    have hpos : 0 < ticksPerMillisecond := by decide
    refine ⟨hdeadline, rfl, le_rfl, ?_, ?_, by simp only [Polling.step]; omega, hpolling⟩ <;>
      simp only [Polling.step, Nat.add_mul, Nat.one_mul] <;> omega
  | poll deadline since milliseconds =>
    obtain ⟨hdeadline, hslice, hsince, hpolls, hstart, hpolled, hpolling⟩ := h
    cases c with
    | expires =>
      simp only [receiveNext] at hnext
      split at hnext <;> cases hnext
      have hlate := Nat.lt_of_not_le ‹_›
      have hend := hearly _ _ _ rfl rfl
      obtain ⟨hcovers, -⟩ := pollMilliseconds_bounds deadline since
      rw [← hslice] at hcovers
      -- it has lasted a whole interval, as otherwise the deadline had passed
      refine ⟨hdeadline, ?_, ?_, ?_, hpolling⟩ <;> simp only [Polling.step] <;> omega
    | succeeds => cases hnext; exact ⟨hpolls, hpolled⟩
    | _ => cases hnext
  | ready | revents =>
    simp only [receiveNext] at hnext
    (repeat' split at hnext) <;> cases hnext
    exact h
  | recv =>
    simp only [receiveNext] at hnext
    (repeat' split at hnext) <;> cases hnext <;> exact h
  | failed =>
    simp only [receiveNext] at hnext
    split at hnext <;> cases hnext

namespace WindowsWorld

/-- A worker in `receive` has polled as its position says. -/
def Polls (n : Nat) (s : WindowsWorld D) (g : Polling) : Prop :=
  ∀ p, s.receive n = some p → Polled s.world.clock g p

theorem Polls.step {g : Polling} {a : Action D} (h : s.Polls n g) (ho : Orderly s.toWorld)
    (hintime : InTime n s a) (hearly : NotEarly n s a)
    (hstep : windowsStep config s a = some (s', l)) : s'.Polls n (updatePolling n g s a) := by
  intro p hp
  cases received ho hstep hp with
  | enters c remaining ha hnone hpc hworld hp' =>
    subst ha hp'
    have hg : updatePolling n g s (.run n c) = { start := s.world.clock, remaining } := by
      simp only [updatePolling, if_true, hnone, hpc]
    rw [hg, hworld]
    exact ⟨Nat.add_comm .., by simp, by simp, Nat.zero_le _, by simp⟩
  | goes c p₀ ha hp₀ hworld hnext =>
    subst ha
    rw [updatePolling_run hp₀, hworld]
    refine receiveNext_polled (h p₀ hp₀) hnext fun deadline since ms hpoll hc => ?_
    subst hpoll hc
    exact hearly rfl _ _ _ hp₀
  | stays ha hp₀ hshutdown hclock =>
    by_cases htick : ∃ ticks, a = .tick ticks
    · obtain ⟨ticks, rfl⟩ := htick
      cases hstep
      cases p with
      | poll deadline since ms =>
        simp only [updatePolling, hp₀]
        exact (h _ hp₀).polls (hintime _ _ _ hp₀)
      | _ =>
        simp only [updatePolling, hp₀]
        exact (h _ hp₀).later (Nat.le_add_right ..)
    · have hclock' := clock_other hclock htick
      rw [updatePolling_other ha fun ticks ha' => htick ⟨ticks, ha'⟩, hclock']
      exact h p hp₀

end WindowsWorld

/-- In any run of the client on Windows, a call of `receive` has polled at most once more than there
are whole intervals in the time it was given, and its `WSAPoll`s together have lasted less than a
millisecond more than that time. -/
theorem windows_receive_bounded {clock : TimePoint} {g₀ g : Polling}
    (h : ((windowsMachine config).withGhost (updatePolling n)).RunIf
      (fun v a => v.1.InTime n a ∧ v.1.NotEarly n a) ({ world := World.initial clock }, g₀) l
      (s, g)) (hp : s.receive n = some p) :
    g.polls ≤ g.remaining / (kShutdownCheckIntervalMilliseconds * ticksPerMillisecond) + 1 ∧
      g.polled < g.remaining + ticksPerMillisecond := by
  have hall : s.Polls n g := by
    refine h.invariant (I := fun v _ => v.1.Polls n v.2) (fun _ h => by cases h) ?_
    intro v k a v' k' hv hi hok hstep
    obtain ⟨hstep, hghost⟩ := Machine.withGhost_step.mp hstep
    rw [hghost]
    exact hi.step (WindowsWorld.waits_of_run hv.eraseGhost).2.orderly hok.1 hok.2 hstep
  obtain ⟨hpolls, hpolled⟩ := (hall p hp).bounds
  refine ⟨?_, hpolled⟩
  have hpos : 0 < kShutdownCheckIntervalMilliseconds * ticksPerMillisecond := by decide
  rw [← Nat.add_div_right _ hpos, Nat.le_div_iff_mul_le hpos]
  exact hpolls

end

/-- The worker that receives, with what it has polled. -/
def polledClient : (WindowsWorld Rat × Polling) × List (Event Rat) :=
  ((windowsMachine (demoConfig .failStop)).withGhost (updatePolling 0)).perform
    ({ world := World.initial 1 }, {}) sliceActions

theorem windows_receive_bounded_polledClient :
    polledClient.1.2.polls = 2 ∧ polledClient.1.2.polled = 50 * ticksPerMillisecond ∧
      polledClient.1.2.polls ≤ polledClient.1.2.remaining /
        (kShutdownCheckIntervalMilliseconds * ticksPerMillisecond) + 1 := by
  have hrun : ((windowsMachine (demoConfig .failStop)).withGhost (updatePolling 0)).RunIf
      (fun v a => v.1.InTime 0 a ∧ v.1.NotEarly 0 a) ({ world := World.initial 1 }, {})
      polledClient.2 polledClient.1 :=
    Machine.runIf_perform
      (fun v a => WindowsWorld.inTime 0 v.1 a && WindowsWorld.notEarly 0 v.1 a)
      (by decide +kernel) fun v a ha =>
        (Bool.and_eq_true_iff.mp ha).imp WindowsWorld.inTime_of_test WindowsWorld.notEarly_of_test
  have hp : polledClient.1.1.receive 0 = some (.poll (1000 * ticksPerMillisecond + 1)
      (50 * ticksPerMillisecond + 1) 50) := by decide +kernel
  exact ⟨by decide +kernel, by decide +kernel, (windows_receive_bounded hrun hp).1⟩

end NetFT.Client
