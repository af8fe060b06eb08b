import NetFT.Client.Latch
import NetFT.Client.Wakeup

/-! What callers see of a fault. A health snapshot calls the client faulted exactly when it has a
fault code, unless it is taken in the middle of the rollback of a `start`
(`snapshot_consistent`). A published fault stays as it is until a `start` passes its reset
(`fault_sticks`). -/

namespace NetFT.Client
open Detail Library

variable {D : Type}

/-- The events of the queries. -/
def Event.reads : Event D → Bool
  | .healthRead .. | .latestRead .. | .faultRead .. => true
  | _ => false

variable {config : Config D} {w w' : World D} {t : Tid} {n : Nat} {c : Choice D}

theorem send_not_reads {i : Impl D} {command : Command} {e : Option String}
    {events : List (Event D)} (h : i.send t command c = some (e, events)) :
    ∀ e ∈ events, e.reads = false := by
  intro e he
  have := send_byRun h e he
  cases e <;> first | rfl | cases this

theorem byRun_not_reads {e : Event D} (h : e.byRun = true) : e.reads = false := by
  cases e <;> first | rfl | cases h

/-- Only the queries read. -/
theorem apiNext_reads {p : ApiPc D} {r : ApiNext D} (hnext : apiNext w t c p = some r)
    {e : Event D} (he : e ∈ r.events) (hr : e.reads = true) :
    ∃ q, p = .query q ∧ r = queryNext w t q := by
  cases apiNext_step hnext with
  | health => exact ⟨.health, rfl, rfl⟩
  | latestSample => exact ⟨.latestSample, rfl, rfl⟩
  | faulted => exact ⟨.faulted, rfl, rfl⟩
  | faultCode => exact ⟨.faultCode, rfl, rfl⟩
  | stopCommand _ hsend | biasSent hsend | biasRestarted hsend =>
    simp [send_not_reads hsend e he] at hr
  | biasFailed hsend | biasRestartFailed hsend =>
    rcases List.mem_append.mp he with he | he
    · simp [send_not_reads hsend e he] at hr
    · simp at he; subst he; cases hr
  | _ => simp at he <;> subst he <;> cases hr

section
variable [DecidableEq D] [Double D]

/-- A read is a step of the query that reads. -/
theorem step_reads {a : Action D} (hstep : step config w a = some (w', l)) {e : Event D}
    (he : e ∈ l) (hr : e.reads = true) :
    ∃ t c q, a = .api t c ∧ w.api t = .query q ∧ e ∈ (queryNext w t q).events := by
  cases a with
  | tick | spurious => cases hstep; simp at he
  | call t call =>
    simp only [step] at hstep
    (repeat' split at hstep) <;> cases hstep
    simp at he
    subst he
    cases hr
  | api t c =>
    obtain ⟨r, hnext, -, -, rfl⟩ := step_api hstep
    obtain ⟨q, hq, rfl⟩ := apiNext_reads hnext he hr
    exact ⟨t, c, q, rfl, hq, he⟩
  | run n c =>
    obtain ⟨r, hnext, -, -, rfl⟩ := step_run hstep
    simp [byRun_not_reads (runNext_events hnext e he)] at hr

end

/-! ## Snapshots -/

/-- The state and the fault code of a snapshot agree. -/
def HealthSnapshot.consistent (s : HealthSnapshot D) : Prop :=
  s.state = .faulted ↔ s.faultCode ≠ .none

def ApiPc.readsHealth : ApiPc D → Bool
  | .query .health => true
  | _ => false

/-- The health is not read between a rollback's restoration of a faulted record and its
publication of the fault. -/
def ReadsSettled (w : World D) : Action D → Prop
  | .api t _ => (w.api t).readsHealth = true → ∀ t', (w.api t').restoring = false
  | _ => True

theorem unlatched_of_restoring {p : ApiPc D} (h : p.restoring = true) : p.unlatched = true := by
  cases p with
  | start callback p =>
    cases p with
    | rollback q => cases q <;> first | rfl | cases h
    | _ => cases h
  | _ => cases h

theorem takeHealth_consistent {i : Impl D} {now : TimePoint} :
    HealthSnapshot.consistent (i.takeHealth now).2 ↔
      (i.faultLatch = .none → i.health.state ≠ .faulted) := by
  simp only [HealthSnapshot.consistent, Impl.takeHealth]
  by_cases h : i.faultLatch = .none <;> simp [h]

section
variable [DecidableEq D] [Double D]

/-- The snapshots of a client are consistent exactly when they are not taken in the middle of a
rollback: in a run without such a read they all are, and such a read returns one that is not. -/
theorem snapshot_consistent :
    (∀ clock l w, (machine config).RunIf ReadsSettled (World.initial clock) l w →
      ∀ t s, .healthRead t s ∈ l → HealthSnapshot.consistent s) ∧
    ∀ w l t c w' l', Reachable config w l → step config w (.api t c) = some (w', l') →
      ¬ ReadsSettled w (.api t c) →
      ∃ s, .healthRead t s ∈ l' ∧ ¬ HealthSnapshot.consistent s := by
  refine ⟨fun clock l w hrun => ?_, fun w l t c w' l' h hstep hok => ?_⟩
  · refine hrun.invariant (I := fun _ k => ∀ t s, .healthRead t s ∈ k → HealthSnapshot.consistent s)
      (by simp) ?_
    intro v k a v' k' hv hk hok hstep t s he
    rcases List.mem_append.mp he with he | he
    · exact hk t s he
    obtain ⟨t', c, q, rfl, hq, he⟩ := step_reads hstep he rfl
    cases q with
    | health =>
      obtain ⟨rfl, rfl⟩ : t = t' ∧ s = (v.impl.takeHealth v.clock).2 := by
        simpa [queryNext] using he
      have hcoh := (Reachable.coherent ⟨clock, hv⟩).impl (hok (by rw [hq]; rfl))
      exact takeHealth_consistent.mpr fun hnone hf => hcoh.state.mp hf hnone
    | _ => simp [queryNext] at he
  · simp only [ReadsSettled, not_forall, Bool.not_eq_false] at hok
    obtain ⟨hread, t', ht'⟩ := hok
    have hcoh := h.coherent
    have hlatch := hcoh.api t' (unlatched_of_restoring ht')
    obtain ⟨r, hnext, -, -, rfl⟩ := step_api hstep
    have hq : w.api t = .query .health := by
      cases hp : w.api t with
      | query q => cases q <;> simp_all [ApiPc.readsHealth]
      | _ => simp_all [ApiPc.readsHealth]
    rw [hq] at hnext
    cases hnext
    refine ⟨_, List.mem_singleton_self _, fun hcons => ?_⟩
    exact takeHealth_consistent.mp hcons hlatch (hcoh.restoring t' ht')

end

/-- `start` on thread `t` after worker `0` has ended, up to the failure of thread creation. -/
def failStartActions (t : Tid) : List (Action Rat) :=
  .call t (.start (some 1)) :: List.replicate 12 (.api t .go) ++ [.api t (.fails "no thread")]

/-- A faulted client whose worker has ended, and a `start` on another thread that fails. -/
def failedStart : List (Action Rat) :=
  startActions (.client 0) ++ faultActions 0 ++ List.replicate 4 (.run 0 .go) ++
    failStartActions (.client 1)

/-- A snapshot that is taken after the rollback has restored the record. -/
def tornRead : World Rat × List (Event Rat) :=
  (machine (demoConfig .failStop)).perform (World.initial 1)
    (failedStart ++ List.replicate 4 (.api (.client 1) .go) ++
      [.call (.client 2) (.query .health), .api (.client 2) .go])

/-- The event returns a snapshot of a fault without a code. -/
def Event.readsTorn : Event D → Bool
  | .healthRead _ s => s.state = .faulted && s.faultCode = .none
  | _ => false

theorem snapshot_inconsistent_reachable :
    ∃ w l t s, Reachable (demoConfig .failStop) w l ∧ .healthRead t s ∈ l ∧
      ¬ HealthSnapshot.consistent s := by
  have h : Reachable (demoConfig .failStop) tornRead.1 tornRead.2 :=
    ⟨1, Machine.run_perform (by decide +kernel)⟩
  have hread : tornRead.2.any Event.readsTorn = true := by decide +kernel
  obtain ⟨e, he, hs⟩ := List.any_eq_true.mp hread
  cases e with
  | healthRead t s =>
    refine ⟨_, _, t, s, h, he, fun hcons => ?_⟩
    simp_all [HealthSnapshot.consistent, Event.readsTorn]
  | _ => cases hs

/-- The client after the whole rollback. -/
def rolledBack : World Rat × List (Event Rat) :=
  (machine (demoConfig .failStop)).perform (World.initial 1)
    (failedStart ++ List.replicate 8 (.api (.client 1) .go) ++
      [.call (.client 2) (.query .health)])

/-- The snapshot it returns then. -/
def settledRead : World Rat × List (Event Rat) :=
  (machine (demoConfig .failStop)).perform rolledBack.1 [.api (.client 2) .go]

theorem snapshot_consistent_settledRead :
    ∀ t s, .healthRead t s ∈ rolledBack.2 ++ settledRead.2 → HealthSnapshot.consistent s := by
  have hexec : ((machine (demoConfig .failStop)).exec (World.initial 1)
      (failedStart ++ List.replicate 8 (.api (.client 1) .go) ++
        [.call (.client 2) (.query .health)])).isSome := by decide +kernel
  have hrun : (machine (demoConfig .failStop)).RunIf ReadsSettled (World.initial 1) rolledBack.2
      rolledBack.1 := Machine.runIf_perform
    (World.apiPasses (!·.readsHealth)) (by decide +kernel) fun w a ha => by
        cases a with
        | api t c => intro hr; simp [World.apiPasses, hr] at ha
        | _ => trivial
  have hsettled : ∀ t, (rolledBack.1.api t).restoring = false := by
    intro t
    by_cases h0 : t = .client 0
    · subst h0; decide +kernel
    by_cases h1 : t = .client 1
    · subst h1; decide +kernel
    by_cases h2 : t = .client 2
    · subst h2; decide +kernel
    have hcallers : ∀ a ∈ failedStart ++ List.replicate 8 (.api (.client 1) .go) ++
        [.call (.client 2) (.query .health)],
        a.caller ∈ [none, some (.client 0), some (.client 1), some (.client 2)] := by decide
    have hsame := exec_api_of_ne (Machine.exec_eq_perform hexec) (t := t) (by
      intro a ha heq
      have := hcallers a ha
      simp [heq, h0, h1, h2] at this)
    rw [show rolledBack.1.api t = .idle from hsame]
    rfl
  have hread : (machine (demoConfig .failStop)).step rolledBack.1 (.api (.client 2) .go) =
      some settledRead := Machine.step_perform (by decide +kernel)
  have hok : ReadsSettled rolledBack.1 (.api (.client 2) .go) := fun _ => hsettled
  exact snapshot_consistent.1 1 _ _ (hrun.tail hok hread)

/-! ## The first fault -/

/-- The step publishes a fault: on a worker, or in the rollback of a `start`. -/
def World.publishing (w : World D) (code : FaultCode) (message : String) : Action D → Prop
  | .run n _ => (w.workers n).pc = .publish code message
  | .api t _ => ∃ callback previous, w.api t = .start callback (.rollback .publish previous) ∧
      code = previous.fault ∧ message = previous.health.lastError
  | _ => False

def ApiPc.resets : ApiPc D → Bool
  | .start _ (.dataReset _) => true
  | _ => false

/-- No `start` passes its reset. -/
def NoReset (w : World D) : Action D → Prop
  | .api t _ => (w.api t).resets = false
  | _ => True

/-- Between the evaluation of the predicate of `wait_for_first_sample` and the wait. -/
def ApiPc.blocks : ApiPc D → Bool
  | .wait (.block _) => true
  | _ => false

/-- A fault is latched, and no thread is about to wait for a sample. -/
structure Stuck (code : FaultCode) (message : String) (w : World D) : Prop where
  latch : w.impl.faultLatch = code
  error : w.impl.health.lastError = message
  waits : ∀ t, (w.api t).blocks = false

theorem blocks_held {p : ApiPc D} (h : p.blocks = true) : .data ∈ p.held := by
  cases p with
  | wait p => cases p <;> first | (simp [ApiPc.held, WaitPc.held]; done) | cases h
  | _ => cases h

/-- A thread that finds the client faulted does not go to wait for a sample. -/
theorem apiNext_blocks {p : ApiPc D} {r : ApiNext D} (hnext : apiNext w t c p = some r)
    (hf : w.impl.faulted = true) : r.pc.blocks = false := by
  cases apiNext_step hnext with
  | waitBegins _ hover | waitAgain _ _ hover => simp [Impl.waitOver, hf] at hover
  | _ => rfl

/-- A faulted client answers a wait at once. -/
theorem waitNext_returns {q : WaitPc} {r : ApiNext D} (hnext : waitNext w t c q = some r)
    (hf : w.impl.faulted = true) (hq : (ApiPc.wait q : ApiPc D).blocks = false) : r.pc = .idle := by
  cases waitNext_step hnext with
  | waitBlock => cases hq
  | waitBegins _ hover | waitAgain _ _ hover => simp [Impl.waitOver, hf] at hover
  | _ => rfl

theorem Stuck.snapshot {code : FaultCode} {message : String} (h : Stuck code message w)
    (hcode : code ≠ .none) (now : TimePoint) :
    (w.impl.takeHealth now).2.state = .faulted ∧ (w.impl.takeHealth now).2.faultCode = code ∧
      (w.impl.takeHealth now).2.lastError = message := by
  simp [Impl.takeHealth, h.latch, h.error, hcode]

section
variable [DecidableEq D] [Double D] {code : FaultCode} {message : String}

theorem Stuck.move {a : Action D} (h : Stuck code message w) (hc : Coherent w)
    (hcode : code ≠ .none) (hok : NoReset w a) (hstep : step config w a = some (w', l)) :
    Stuck code message w' := by
  have hlatched : w.impl.faultLatch ≠ .none := by rw [h.latch]; exact hcode
  cases a with
  | tick | spurious => cases hstep; exact ⟨h.latch, h.error, h.waits⟩
  | call t call =>
    simp only [step] at hstep
    (repeat' split at hstep) <;> cases hstep
    refine ⟨h.latch, h.error, fun t' => ?_⟩
    by_cases ht : t' = t
    · rw [World.enter_api, ht, Function.update_self]
      cases call <;> rfl
    · rw [World.enter_api, Function.update_of_ne ht]
      exact h.waits t'
  | api t c =>
    obtain ⟨r, hnext, -, rfl, -⟩ := step_api hstep
    have hsame : SameFault w.impl r.impl := by
      cases hp : (w.api t).rewrites with
      | false => exact (apiNext_kept hnext hp).same
      | true =>
        -- apart from the reset, these steps are made with the latch open
        refine absurd (hc.api t ?_) hlatched
        have hreset : (w.api t).resets = false := hok
        cases hat : w.api t with
        | start callback p =>
          rw [hat] at hp hreset
          cases p with
          | rollback q => cases q <;> first | rfl | cases hp
          | dataReset => cases hreset
          | _ => cases hp
        | stop p => rw [hat] at hp; cases p <;> first | rfl | cases hp
        | _ => rw [hat] at hp; cases hp
    refine ⟨hsame.latch.trans h.latch, hsame.error.trans h.error, fun t' => ?_⟩
    by_cases ht : t' = t
    · rw [World.applyApi_api, ht, Function.update_self]
      exact apiNext_blocks hnext (by simp [Impl.faulted, hlatched])
    · rw [World.applyApi_api, Function.update_of_ne ht]
      exact h.waits t'
  | run n c =>
    obtain ⟨r, hnext, -, rfl, -⟩ := step_run hstep
    have hunl : (w.workers n).pc.unlatched = false :=
      eq_false_of_ne_true fun hunl => hlatched (hc.worker n hunl)
    have hsame : SameFault w.impl r.impl := by
      have hk := runNext_kept hnext fun code message hpc => by simp [hpc, RunPc.unlatched] at hunl
      rcases hk.record with hsame | ⟨hopen, -⟩
      · exact hsame
      · simp [hunl] at hopen
    exact ⟨hsame.latch.trans h.latch, hsame.error.trans h.error, h.waits⟩

/-- A publication latches the fault. -/
theorem stuck_of_publishing {a : Action D} (h : Reachable config w l)
    (hpub : w.publishing code message a) (hstep : step config w a = some (w', l')) :
    code ≠ .none ∧ Stuck code message w' := by
  have ho := h.orderly
  have hc := h.coherent
  cases a with
  | run n c =>
    have hpc : (w.workers n).pc = .publish code message := hpub
    obtain ⟨r, hnext, htake, rfl, -⟩ := step_run hstep
    have hidle := ho.nested.idle_of_runNext hnext
    have hopen := hc.worker n (by rw [hpc]; rfl)
    have hcode := hc.codes n code (by rw [hpc]; rfl)
    -- the publication holds the data mutex, so no wait has just evaluated its predicate
    have hwaits : ∀ t, (w.api t).blocks = false := fun t => eq_false_of_ne_true fun hb => by
      obtain rfl := ho.locked.owner_run htake (m := .data) (.inr (by simp [hpc, RunPc.needs]))
        ((ho.locked .data t).mpr (.inl (blocks_held hb)))
      simp [hidle, ApiPc.blocks] at hb
    rw [hpc] at hnext
    cases hnext
    refine ⟨hcode, ?_, ?_, hwaits⟩ <;> simp [Impl.publish, hopen]
  | api t c =>
    obtain ⟨callback, previous, hat, rfl, rfl⟩ := hpub
    obtain ⟨r, hnext, htake, rfl, -⟩ := step_api hstep
    have hopen := hc.api t (by rw [hat]; rfl)
    have hcode := hc.faulted t previous (by rw [hat]; rfl) (by rw [hat]; rfl)
    have hwaits : ∀ t', (w.api t').blocks = false := fun t' => eq_false_of_ne_true fun hb => by
      obtain rfl := ho.locked.owner_api htake (m := .data)
        (.inr (by simp [hat, ApiPc.needs, StartPc.needs, RollbackPc.needs]))
        ((ho.locked .data t').mpr (.inl (blocks_held hb)))
      simp [hat, ApiPc.blocks] at hb
    rw [hat] at hnext
    cases hnext
    refine ⟨hcode, ?_, ?_, fun t' => ?_⟩
    · simp [rollbackNext, Impl.publish, hopen]
    · simp [rollbackNext, Impl.publish, hopen]
    · by_cases ht : t' = t
      · rw [World.applyApi_api, ht, Function.update_self]
        rfl
      · rw [World.applyApi_api, Function.update_of_ne ht]
        exact hwaits t'
  | _ => cases hpub

/-- Once a fault has been published, and until a `start` passes its reset, it is the fault that
every query reports, whatever else happens, and no wait for a sample goes on. -/
theorem fault_sticks {a : Action D} (h : Reachable config w l)
    (hpub : w.publishing code message a) (hstep : step config w a = some (w', l'))
    (hrun : (machine config).RunIf NoReset w' k v) :
    code ≠ .none ∧ v.impl.faultLatch = code ∧ v.impl.faulted = true ∧
    v.impl.health.state = .faulted ∧ v.impl.health.faultCode = code ∧
    v.impl.health.lastError = message ∧
    (∀ t s, .healthRead t s ∈ k →
      s.state = .faulted ∧ s.faultCode = code ∧ s.lastError = message) ∧
    (∀ t read, .faultRead t read ∈ k → read = code) ∧
    (∀ t, (v.api t).blocks = false) ∧
    ∀ t q c r, v.api t = .wait q → apiNext v t c (v.api t) = some r → r.pc = .idle := by
  obtain ⟨hcode, hstuck⟩ := stuck_of_publishing h hpub hstep
  have hreach : Reachable config w' (l ++ l') := h.step hstep
  have hv := hreach.run hrun.run
  obtain ⟨hv', hhealth, hfault⟩ : Stuck code message v ∧
      (∀ t s, .healthRead t s ∈ k →
        s.state = .faulted ∧ s.faultCode = code ∧ s.lastError = message) ∧
      ∀ t read, .faultRead t read ∈ k → read = code := by
    refine hrun.invariant (I := fun v k => Stuck code message v ∧
      (∀ t s, .healthRead t s ∈ k →
        s.state = .faulted ∧ s.faultCode = code ∧ s.lastError = message) ∧
      ∀ t read, .faultRead t read ∈ k → read = code) ⟨hstuck, by simp, by simp⟩ ?_
    intro u k a u' k' hu hi hok hstep
    obtain ⟨hi, hhealth, hfault⟩ := hi
    have hc := (hreach.run hu).coherent
    refine ⟨hi.move hc hcode hok hstep, fun t s he => ?_, fun t read he => ?_⟩
    · rcases List.mem_append.mp he with he | he
      · exact hhealth t s he
      obtain ⟨t', c, q, rfl, hq, he⟩ := step_reads hstep he rfl
      cases q with
      | health =>
        obtain ⟨rfl, rfl⟩ : t = t' ∧ s = (u.impl.takeHealth u.clock).2 := by
          simpa [queryNext] using he
        exact hi.snapshot hcode _
      | _ => simp [queryNext] at he
    · rcases List.mem_append.mp he with he | he
      · exact hfault t read he
      obtain ⟨t', c, q, rfl, hq, he⟩ := step_reads hstep he rfl
      cases q with
      | faulted | faultCode =>
        obtain ⟨rfl, rfl⟩ : t = t' ∧ read = u.impl.faultLatch := by simpa [queryNext] using he
        exact hi.latch
      | _ => simp [queryNext] at he
  have hf : v.impl.faulted = true := by simp [Impl.faulted, hv'.latch, hcode]
  have hlatched : v.impl.faultLatch ≠ .none := by rw [hv'.latch]; exact hcode
  have hcoh := hv.coherent.impl fun t => eq_false_of_ne_true fun hr =>
    hlatched (hv.coherent.api t (unlatched_of_restoring hr))
  exact ⟨hcode, hv'.latch, hf, hcoh.state.mpr hlatched, hcoh.code.trans hv'.latch, hv'.error,
    hhealth, hfault, hv'.waits, fun t q c r hq hnext => by
      rw [hq] at hnext
      exact waitNext_returns hnext hf (by have := hv'.waits t; rwa [hq] at this)⟩

end

def RunPc.isPublish (code : FaultCode) (message : String) : RunPc D → Bool
  | .publish code' message' => code' = code && message' = message
  | _ => false

theorem isPublish_iff {p : RunPc D} {code : FaultCode} {message : String} :
    p.isPublish code message = true ↔ p = .publish code message := by
  cases p <;> simp [RunPc.isPublish]

/-- A worker that is about to publish the fault of a failed connection. -/
def publishingClient : World Rat × List (Event Rat) :=
  (machine (demoConfig .failStop)).perform (World.initial 1)
    (startActions (.client 0) ++ List.replicate 6 (.run 0 .go) ++ .run 0 (.fails "no route") ::
      List.replicate 4 (.run 0 .go))

def publishedClient : World Rat × List (Event Rat) :=
  (machine (demoConfig .failStop)).perform publishingClient.1 [.run 0 .go]

/-- A `stop`, and a snapshot while the worker ends. -/
def stoppingFault : World Rat × List (Event Rat) :=
  (machine (demoConfig .failStop)).perform publishedClient.1
    ([.call (.client 1) .stop, .api (.client 1) .go] ++ List.replicate 4 (.run 0 .go) ++
      [.call (.client 2) (.query .health), .api (.client 2) .go])

theorem fault_sticks_stoppingFault :
    stoppingFault.1.impl.faultLatch = .socket ∧
    ∀ t s, .healthRead t s ∈ stoppingFault.2 →
      s.state = .faulted ∧ s.faultCode = .socket ∧ s.lastError = "no route" := by
  have h : Reachable (demoConfig .failStop) publishingClient.1 publishingClient.2 :=
    ⟨1, Machine.run_perform (by decide +kernel)⟩
  have hpub : publishingClient.1.publishing .socket "no route" (.run 0 .go) := by
    have hat : (publishingClient.1.workers 0).pc.isPublish .socket "no route" = true := by
      decide +kernel
    exact isPublish_iff.mp hat
  have hstep : (machine (demoConfig .failStop)).step publishingClient.1 (.run 0 .go) =
      some publishedClient := Machine.step_perform (by decide +kernel)
  have hrun : (machine (demoConfig .failStop)).RunIf NoReset publishedClient.1 stoppingFault.2
      stoppingFault.1 := Machine.runIf_perform
    (World.apiPasses (!·.resets)) (by decide +kernel) fun w a ha => by
        cases a with
        | api t c => simpa [NoReset, World.apiPasses] using ha
        | _ => trivial
  obtain ⟨-, hlatch, -, -, -, -, hhealth, -⟩ := fault_sticks h hpub hstep hrun
  exact ⟨hlatch, hhealth⟩

end NetFT.Client
