import NetFT.Client.Timeout

/-! How long a worker waits for a record. Only a valid record moves the deadline of a session:
datagrams that are not records, interruptions of `poll` and late steps of the worker do not, and the
worker spends at most a millisecond more than `receive_timeout` in its polls (`silence_bounded`). -/

namespace NetFT.Client
open Detail Library

variable {D : Type}

/-- What a worker has waited since the later of the start of receiving and the last valid record. -/
structure Silence where
  since : TimePoint := 0
  /-- The timeout of the `poll` in progress ends there. -/
  pollEnd : TimePoint := 0
  /-- The time spent in `poll`. -/
  polled : Nat := 0
  deriving DecidableEq, Repr

def Silence.update (g : Silence) (clock : TimePoint) (c : Choice D) : RunPc D → Silence
  | .session .firstDeadline | .session (.stamp _) => { g with since := clock, polled := 0 }
  | .session (.receive remaining) =>
    { g with pollEnd := ticksPerMillisecond * timeoutMilliseconds remaining + clock }
  | .session (.poll pollDeadline) =>
    match c with
    | .interrupted =>
      -- `poll` is called again with the time left
      { g with pollEnd := ticksPerMillisecond * timeoutMilliseconds (pollDeadline - clock) + clock }
    | _ => g
  | _ => g

def updateSilence (n : Nat) (g : Silence) (w : World D) : Action D → Silence
  | .run k c => if k = n then g.update w.clock c (w.workers n).pc else g
  | .tick ticks =>
    match (w.workers n).pc with
    | .session (.poll _) => { g with polled := g.polled + ticks }
    | _ => g
  | _ => g

/-- `poll` does not overrun its timeout. -/
def PollsInTime (n : Nat) (s : World D × Silence) : Action D → Prop
  | .tick ticks => ∀ pollDeadline, (s.1.workers n).pc = .session (.poll pollDeadline) →
    ticks + s.1.clock ≤ s.2.pollEnd
  | _ => True

/-- The deadline counts from `since`, and the worker has polled only since then. -/
structure Waited (ticks : Nat) (clock : TimePoint) (g : Silence) (deadline : TimePoint) : Prop where
  deadline : ticks + g.since = deadline
  polling : g.polled + g.since ≤ clock
  polled : g.polled ≤ ticks + ticksPerMillisecond

/-- What the position of a worker says about its waiting. -/
def Patient (ticks : Nat) (clock : TimePoint) (g : Silence) (deadline : TimePoint) :
    RunPc D → Prop
  | .session .loop | .session .now | .session .timedOut | .session .pollCheck | .session .recv
  | .session (.received _) | .session .malformed | .session (.stamp _) | .session (.record _) =>
    Waited ticks clock g deadline
  | .session (.receive remaining) =>
    Waited ticks clock g deadline ∧ g.polled + remaining ≤ ticks
  | .session (.poll pollDeadline) =>
    Waited ticks clock g deadline ∧ g.polled + pollDeadline ≤ ticks + clock ∧
      ticksPerMillisecond + pollDeadline ≥ g.pollEnd
  | .session (.valid _ receivedAt) => g.since = receivedAt ∧ g.polled = 0 ∧ receivedAt ≤ clock
  | _ => True

variable {config : Config D} {w w' : World D} {t : Tid} {n : Nat} {c : Choice D}
  {worker : Worker D} {r : RunNext D} {g : Silence} {ticks : Nat} {clock deadline : TimePoint}

theorem Waited.later {clock' : TimePoint} (h : Waited ticks clock g deadline)
    (hle : clock ≤ clock') : Waited ticks clock' g deadline :=
  ⟨h.deadline, Nat.le_trans h.polling hle, h.polled⟩

/-- Where a worker does not poll, time passes. -/
theorem Patient.later {clock' : TimePoint} {p : RunPc D} (h : Patient ticks clock g deadline p)
    (hle : clock ≤ clock') : Patient ticks clock' g deadline p := by
  cases p with
  | session p =>
    cases p with
    | loop | now | timedOut | pollCheck | recv | received | malformed | stamp | record =>
      exact Waited.later h hle
    | receive => exact ⟨h.1.later hle, h.2⟩
    | poll => exact ⟨h.1.later hle, Nat.le_trans h.2.1 (Nat.add_le_add_left hle ticks), h.2.2⟩
    | valid => exact ⟨h.1, h.2.1, Nat.le_trans h.2.2 hle⟩
    | _ => trivial
  | _ => trivial

/-- In `poll` it passes up to the timeout. -/
theorem Patient.polls {pollDeadline : TimePoint} {elapsed : Nat}
    (h : Patient ticks clock g deadline (.session (.poll pollDeadline) : RunPc D))
    (hintime : elapsed + clock ≤ g.pollEnd) :
    Patient ticks (clock + elapsed) { g with polled := g.polled + elapsed } deadline
      (.session (.poll pollDeadline) : RunPc D) := by
  obtain ⟨hwaited, hpolled, hend⟩ := h
  have hpolling := hwaited.polling
  refine ⟨⟨hwaited.deadline, ?_, ?_⟩, ?_, hend⟩
  · show g.polled + elapsed + g.since ≤ Nat.add clock elapsed
    rw [Nat.add_eq]
    omega
  · show g.polled + elapsed ≤ ticks + ticksPerMillisecond
    omega
  · show g.polled + elapsed + pollDeadline ≤ ticks + Nat.add clock elapsed
    rw [Nat.add_eq]
    omega

theorem Patient.polled {p : RunPc D} (h : Patient ticks clock g deadline p)
    (hp : p.receiving = true) : g.polled ≤ ticks + ticksPerMillisecond := by
  cases p with
  | session p =>
    cases p with
    | loop | now | timedOut | pollCheck | recv | received | malformed | stamp | record =>
      exact Waited.polled h
    | receive | poll => exact h.1.polled
    | valid =>
      obtain ⟨-, hpolled, -⟩ := h
      omega
    | _ => cases hp
  | _ => cases hp

/-- The deadline is set from `since`. -/
theorem Waited.start {since : TimePoint}
    (hticks : checkedDuration config.receiveTimeout = some ticks)
    (hdeadline : checkedDeadline since config.receiveTimeout = some deadline)
    (hsince : g.since = since) (hpolled : g.polled = 0) (hle : since ≤ clock) :
    Waited ticks clock g deadline := by
  obtain ⟨ticks', hticks', rfl⟩ := checkedDeadline_some hdeadline
  obtain rfl := Option.some.inj (hticks'.symm.trans hticks)
  refine ⟨?_, ?_, ?_⟩
  · rw [hsince]
    exact Nat.add_comm ..
  · rw [hpolled, hsince, Nat.zero_add]
    exact hle
  · omega

theorem patient_afterRecord {i : Impl D} {outcome : Option SessionResult}
    {events : List (Event D)} (h : Waited ticks clock g worker.deadline) :
    Patient ticks clock g (afterRecord i worker n outcome events).worker.deadline
      (afterRecord i worker n outcome events).worker.pc := by
  cases outcome with
  | none => exact h
  | some result => trivial

theorem recordNext_patient [Double D] {p : RecordPc D}
    (hnext : recordNext config w n c worker p = some r)
    (h : Waited ticks clock g worker.deadline) :
    Patient ticks clock g r.worker.deadline r.worker.pc := by
  cases p <;> simp only [recordNext] at hnext <;> (repeat' split at hnext) <;> cases hnext <;>
    first | exact patient_afterRecord h | exact h | trivial

section
variable [DecidableEq D] [Double D]

theorem sessionNext_patient {p : SessionPc D}
    (hticks : checkedDuration config.receiveTimeout = some ticks)
    (hnext : sessionNext config w n c worker p = some r)
    (h : Patient ticks w.clock g worker.deadline (.session p)) :
    Patient ticks w.clock (g.update w.clock c (.session p)) r.worker.deadline r.worker.pc := by
  cases p with
  | firstDeadline =>
    simp only [sessionNext] at hnext
    split at hnext <;> cases hnext
    · trivial
    · exact Waited.start hticks ‹_› rfl rfl (Nat.le_refl _)
  | now =>
    have hdeadline := h.deadline
    have hpolling := h.polling
    simp only [sessionNext] at hnext
    split at hnext <;> cases hnext
    · exact h
    · rename_i hlt
      have hlt := Nat.lt_of_not_le hlt
      refine ⟨h, ?_⟩
      show g.polled + Nat.sub worker.deadline w.clock ≤ ticks
      rw [Nat.sub_eq]
      omega
  | receive remaining =>
    obtain ⟨hwaited, hleft⟩ := h
    simp only [sessionNext] at hnext
    (repeat' split at hnext) <;> cases hnext
    · trivial
    · exact ⟨hwaited.deadline, hwaited.polling, hwaited.polled⟩
    · trivial
    · have hle := timeoutMilliseconds_le remaining
      refine ⟨⟨hwaited.deadline, hwaited.polling, hwaited.polled⟩, ?_, ?_⟩
      · show g.polled + Nat.add w.clock remaining ≤ ticks + w.clock
        rw [Nat.add_eq]
        omega
      · show ticksPerMillisecond + Nat.add w.clock remaining ≥
          ticksPerMillisecond * timeoutMilliseconds remaining + w.clock
        rw [Nat.add_eq]
        omega
  | poll pollDeadline =>
    obtain ⟨hwaited, hpolled, hend⟩ := h
    simp only [sessionNext] at hnext
    split at hnext
    · cases hnext; exact hwaited
    · cases hnext; exact hwaited
    · split at hnext <;> cases hnext
      · exact ⟨hwaited.deadline, hwaited.polling, hwaited.polled⟩
      · have hearly := Nat.lt_of_not_le ‹_›
        have hle := timeoutMilliseconds_le (Nat.sub pollDeadline w.clock)
        rw [Nat.sub_eq] at hle
        refine ⟨⟨hwaited.deadline, hwaited.polling, hwaited.polled⟩, hpolled, ?_⟩
        show ticksPerMillisecond + pollDeadline ≥
          ticksPerMillisecond * timeoutMilliseconds (Nat.sub pollDeadline w.clock) + w.clock
        rw [Nat.sub_eq]
        omega
    · cases hnext; trivial
    · cases hnext
  | pollCheck =>
    cases hnext
    dsimp only
    split <;> exact h
  | stamp record => cases hnext; exact ⟨rfl, rfl, Nat.le_refl _⟩
  | valid record receivedAt =>
    obtain ⟨hsince, hpolled, hle⟩ := h
    simp only [sessionNext] at hnext
    split at hnext <;> cases hnext
    · trivial
    · exact Waited.start hticks ‹_› hsince hpolled hle
  | record q => exact recordNext_patient hnext h
  | loop | timedOut | recv | received | malformed =>
    simp only [sessionNext] at hnext
    (repeat' split at hnext) <;> cases hnext <;> first | exact h | trivial
  | _ =>
    simp only [sessionNext] at hnext
    (repeat' split at hnext) <;> cases hnext <;> trivial

/-- No step from outside enters the receive loop. -/
theorem runNext_patient {p : RunPc D}
    (hticks : checkedDuration config.receiveTimeout = some ticks)
    (hnext : runNext config w n c worker p = some r)
    (h : Patient ticks w.clock g worker.deadline p) :
    Patient ticks w.clock (g.update w.clock c p) r.worker.deadline r.worker.pc := by
  cases p with
  | session q => exact sessionNext_patient hticks hnext h
  | closeTransport context => cases hnext; cases context <;> trivial
  | raised message | finalFaulted =>
    cases hnext
    dsimp only
    split <;> trivial
  | _ =>
    simp only [runNext] at hnext
    (repeat' split at hnext) <;> cases hnext <;> trivial

/-- Worker `n` waits as its position says. -/
def PatientAt (n ticks : Nat) (w : World D) (g : Silence) : Prop :=
  Patient ticks w.clock g (w.workers n).deadline (w.workers n).pc

omit [DecidableEq D] [Double D] in
theorem updateSilence_other {a : Action D} (ha : ∀ c, a ≠ .run n c)
    (htick : ∀ ticks, a ≠ .tick ticks) : updateSilence n g w a = g := by
  cases a with
  | run k c => exact if_neg fun hk => ha c (congrArg (Action.run · c) hk)
  | tick ticks => exact absurd rfl (htick ticks)
  | _ => rfl

omit [DecidableEq D] [Double D] in
theorem PatientAt.tick {elapsed : Nat} (h : PatientAt n ticks w g)
    (hintime : PollsInTime n (w, g) (.tick elapsed)) :
    PatientAt n ticks (w.elapse elapsed) (updateSilence n g w (.tick elapsed)) := by
  by_cases hpoll : ∃ pollDeadline, (w.workers n).pc = .session (.poll pollDeadline)
  · obtain ⟨pollDeadline, hpc⟩ := hpoll
    have hend := hintime pollDeadline hpc
    simp only [PatientAt, updateSilence, World.elapse, hpc] at h ⊢
    exact h.polls hend
  · have hg : updateSilence n g w (.tick elapsed) = g := by
      simp only [updateSilence]
      split
      · exact absurd ⟨_, ‹_›⟩ hpoll
      · rfl
    rw [hg]
    exact Patient.later h (Nat.le_add_right ..)

theorem PatientAt.move {a : Action D} (h : PatientAt n ticks w g) (ho : Orderly w)
    (hticks : checkedDuration config.receiveTimeout = some ticks)
    (hintime : PollsInTime n (w, g) a) (hstep : step config w a = some (w', l)) :
    PatientAt n ticks w' (updateSilence n g w a) := by
  cases a with
  | tick elapsed => cases hstep; exact h.tick hintime
  | spurious t => cases hstep; exact h
  | call t call =>
    simp only [step] at hstep
    (repeat' split at hstep) <;> cases hstep
    exact h
  | api t c =>
    obtain ⟨r, hnext, -, rfl, -⟩ := step_api hstep
    rcases ho.applyApi_worker config t r n with hsame | ⟨-, htop⟩
    · rw [PatientAt, hsame]
      exact h
    · rw [PatientAt, htop]
      trivial
  | run k c =>
    obtain ⟨r, hnext, -, rfl, -⟩ := step_run hstep
    by_cases hk : k = n
    · subst hk
      simp only [PatientAt, World.applyRun_workers, Function.update_self, World.applyRun_clock,
        updateSilence, if_true]
      exact runNext_patient hticks hnext h
    · rw [updateSilence_other (fun c' hc => hk (Action.run.inj hc).1) (by simp), PatientAt,
        World.applyRun_workers, Function.update_of_ne (Ne.symm hk)]
      exact h

/-- In every run in which `poll` does not overrun its timeout, whatever is received and whatever
interrupts: since the later of the start of receiving and the last valid record a worker in the
receive loop has spent at most a millisecond more than `receive_timeout` in `poll`, and what is left
of the `poll` in progress included. -/
theorem silence_bounded (hticks : checkedDuration config.receiveTimeout = some ticks)
    {clock : TimePoint} {g₀ : Silence}
    (h : ((machine config).withGhost (updateSilence n)).RunIf (PollsInTime n)
      (World.initial clock, g₀) l (w, g)) :
    ((w.workers n).pc.receiving = true → g.polled ≤ ticks + ticksPerMillisecond) ∧
      ∀ pollDeadline, (w.workers n).pc = .session (.poll pollDeadline) →
        g.polled + g.pollEnd ≤ ticks + ticksPerMillisecond + w.clock := by
  have hinit : PatientAt n ticks (World.initial clock : World D) g₀ := trivial
  have hpatient : PatientAt n ticks w g := by
    refine h.invariant (I := fun v _ => PatientAt n ticks v.1 v.2) hinit ?_
    intro v k a v' k' hv hi hintime hstep
    obtain ⟨hstep, hghost⟩ := Machine.withGhost_step.mp hstep
    have hreach : Reachable config v.1 k := ⟨clock, hv.eraseGhost⟩
    rw [hghost]
    exact hi.move hreach.orderly hticks hintime hstep
  unfold PatientAt at hpatient
  constructor
  · intro hn
    exact hpatient.polled hn
  · intro pollDeadline hpc
    rw [hpc] at hpatient
    obtain ⟨-, hpolled, hend⟩ := hpatient
    omega

end

/-- Decides `PollsInTime`. -/
def pollsInTime (n : Nat) (s : World D × Silence) : Action D → Bool
  | .tick ticks =>
    match (s.1.workers n).pc with
    | .session (.poll _) => ticks + s.1.clock ≤ s.2.pollEnd
    | _ => true
  | _ => true

theorem pollsInTime_of_test {s : World D × Silence} {a : Action D}
    (h : pollsInTime n s a = true) : PollsInTime n s a := by
  cases a with
  | tick ticks => intro _ hpc; simpa [pollsInTime, hpc] using h
  | _ => trivial

/-- A worker whose first `poll` is interrupted and that then receives a datagram that is no
record. -/
def unsettledClient : (World Rat × Silence) × List (Event Rat) :=
  ((machine (demoConfig .failStop)).withGhost (updateSilence 0)).perform (World.initial 1, {})
    (startActions (.client 0) ++ openActions 0 ++ List.replicate 3 (.run 0 .go) ++
      [.tick 400000000, .run 0 .interrupted, .tick 200000000, .run 0 .succeeds, .run 0 .go,
        .run 0 (.datagram [1])] ++ List.replicate 5 (.run 0 .go) ++ [.tick 300000000])

theorem silence_bounded_unsettledClient :
    unsettledClient.1.1.impl.health.malformedCount = 1 ∧
      unsettledClient.1.2.polled = 900000000 ∧
      unsettledClient.1.2.polled ≤ 1000000000 + ticksPerMillisecond := by
  have hrun : ((machine (demoConfig .failStop)).withGhost (updateSilence 0)).RunIf (PollsInTime 0)
      (World.initial 1, {}) unsettledClient.2 (unsettledClient.1.1, unsettledClient.1.2) :=
    Machine.runIf_perform (pollsInTime 0) (by decide +kernel) fun _ _ => pollsInTime_of_test
  have hticks : checkedDuration (demoConfig .failStop).receiveTimeout = some 1000000000 := by
    decide +kernel
  obtain ⟨hpolled, -⟩ := silence_bounded hticks hrun
  exact ⟨by decide +kernel, by decide +kernel, hpolled (by decide +kernel)⟩

end NetFT.Client
