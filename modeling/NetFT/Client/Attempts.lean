import NetFT.Client.Rollback

/-! Which attempt to start the client a first-sample wait belongs to. The client tells attempts
apart by a generation number, which a failed attempt gives back, so that the next one gets the
same number. A ghost numbers the attempts for good: it knows which of them is current, which one
created which worker, which one a wait has captured, and which have delivered a sample. -/

namespace NetFT.Client
open Detail Library

variable {D : Type}

/-- The attempts to start a client; `0` is the time before the first one. -/
structure Attempts where
  begun : Nat := 0
  /-- The attempt whose generation the client shows. -/
  current : Nat := 0
  /-- The attempt that is current again if the present one fails. -/
  saved : Nat := 0
  worker : Nat → Nat := fun _ => 0
  captured : Tid → Nat := fun _ => 0
  delivered : List Nat := []

namespace Attempts

def updateApi (g : Attempts) (w : World D) (t : Tid) : ApiPc D → Attempts
  | .start _ (.dataReset _) =>
    { g with begun := g.begun + 1, saved := g.current, current := g.begun + 1 }
  | .start _ (.create _) => { g with worker := Function.update g.worker w.created g.current }
  | .start _ (.rollback .data _) => { g with current := g.saved }
  | .wait .enter => { g with captured := Function.update g.captured t g.current }
  | _ => g

def updateRun (g : Attempts) (n : Nat) : RunPc D → Attempts
  | .session (.record (.commitData ..)) => { g with delivered := g.worker n :: g.delivered }
  | _ => g

def update (g : Attempts) (w : World D) : Action D → Attempts
  | .api t _ => g.updateApi w t (w.api t)
  | .run n _ => g.updateRun n (w.workers n).pc
  | _ => g

end Attempts

/-- The generation that a wait has captured. -/
def ApiPc.captured : ApiPc D → Option Nat
  | .wait (.block c) | .wait (.asleep c) => some c
  | _ => none

/-- What a `start` between its reset and the restoration of the record has saved. -/
def ApiPc.pending : ApiPc D → Option (Impl.Previous D)
  | .start _ (.clearStopping p) | .start _ (.clearExited p) | .start _ (.create p)
  | .start _ (.rollback .stopping p) | .start _ (.rollback .exited p)
  | .start _ (.rollback .record p) | .start _ (.rollback .data p) => some p
  | _ => none

/-- A `start` does not give the client a generation that some wait has captured already. -/
def FreshGeneration (s : World D × Attempts) : Action D → Prop
  | .api t _ => (s.1.api t).resets = true →
      ∀ t', (s.1.api t').captured ≠ some (s.1.impl.generation + 1)
  | _ => True

/-- What a wait needs to know about the attempts. -/
structure Attributed (w : World D) (g : Attempts) : Prop where
  waiting : ∀ t c, (w.api t).captured = some c → c ≠ 0 ∧
    (c = w.impl.generation → g.captured t = g.current)
  delivered : w.impl.deliveredGeneration = w.impl.generation → w.impl.generation ≠ 0 →
    g.current ∈ g.delivered
  worker : ∀ n, w.executing n → g.worker n = g.current
  pending : ∀ t p, (w.api t).pending = some p → w.impl.generation = p.generation + 1 ∧
    (∀ t' c, (w.api t').captured = some c → c = p.generation → g.captured t' = g.saved) ∧
    (p.deliveredGeneration = p.generation → p.generation ≠ 0 → g.saved ∈ g.delivered)

variable {config : Config D} {w w' : World D} {t : Tid} {n : Nat} {c : Choice D} {g : Attempts}

/-- A step of an entry point that leaves the generations alone and captures none. -/
structure SameAttempt (w : World D) (p : ApiPc D) (r : ApiNext D) : Prop where
  generation : r.impl.generation = w.impl.generation
  deliveredGeneration : r.impl.deliveredGeneration = w.impl.deliveredGeneration
  captured : r.pc.captured = none ∨ r.pc.captured = p.captured
  pending : r.pc.pending = none ∨ r.pc.pending = p.pending
  spawn : r.spawn = false

/-- The steps that the ghost follows. -/
def ApiPc.tracked : ApiPc D → Bool
  | .start _ (.dataReset _) | .start _ (.create _) | .start _ (.rollback .data _)
  | .wait .enter => true
  | _ => false

theorem publish_generations (i : Impl D) (code : FaultCode) (message : String) :
    (i.publish code message).generation = i.generation ∧
      (i.publish code message).deliveredGeneration = i.deliveredGeneration := by
  unfold Impl.publish
  split <;> exact ⟨rfl, rfl⟩

theorem apiNext_sameAttempt {p : ApiPc D} {r : ApiNext D} (hnext : apiNext w t c p = some r)
    (hp : p.tracked = false) : SameAttempt w p r := by
  cases apiNext_step hnext with
  | @rollbackPublish _ previous =>
    have hgen := publish_generations w.impl previous.fault previous.health.lastError
    exact ⟨hgen.1, hgen.2, .inl rfl, .inl rfl, rfl⟩
  | clearStopping | clearExited | rollbackStopping | rollbackExited | rollbackRecord =>
    exact ⟨rfl, rfl, .inl rfl, .inr rfl, rfl⟩
  | waitBlock | waitAgain => exact ⟨rfl, rfl, .inr rfl, .inl rfl, rfl⟩
  | dataReset | created | notCreated | rollbackData | waitUnstarted | waitAtOnce | waitBegins =>
    cases hp
  | _ => exact ⟨rfl, rfl, .inl rfl, .inl rfl, rfl⟩

theorem executing_of_applyApi {r : ApiNext D} (h : (w.applyApi config t r).executing n) :
    w.executing n ∨ r.spawn = true ∧ n = w.created := by
  by_cases hc : n = w.created
  · cases hs : r.spawn with
    | true => exact .inr ⟨rfl, hc⟩
    | false => exact .inl (by simpa [World.executing, World.applyApi, hs] using h)
  · rw [World.executing, applyApi_workers_ne hc] at h
    exact .inl h

/-- Who has captured a generation after a step that captures none had captured it before. -/
theorem captured_of_applyApi {r : ApiNext D} {t' : Tid} {captured : Nat}
    (hr : r.pc.captured = none ∨ r.pc.captured = (w.api t).captured)
    (h : ((w.applyApi config t r).api t').captured = some captured) :
    (w.api t').captured = some captured := by
  by_cases ht : t' = t
  · rw [World.applyApi_api, ht, Function.update_self] at h
    rcases hr with hn | hn <;> rw [hn] at h
    · cases h
    · rw [ht]; exact h
  · rwa [World.applyApi_api, Function.update_of_ne ht] at h

theorem Attributed.same (h : Attributed w g) {r : ApiNext D} (hs : SameAttempt w (w.api t) r) :
    Attributed (w.applyApi config t r) g := by
  have hpending : ∀ t' p, ((w.applyApi config t r).api t').pending = some p →
      (w.api t').pending = some p := by
    intro t' p hp
    by_cases ht : t' = t
    · rw [World.applyApi_api, ht, Function.update_self] at hp
      rcases hs.pending with hn | hn <;> rw [hn] at hp
      · simp at hp
      · rw [ht]; exact hp
    · rwa [World.applyApi_api, Function.update_of_ne ht] at hp
  constructor
  case waiting =>
    intro t' c hc
    rw [World.applyApi_impl, hs.generation]
    exact h.waiting t' c (captured_of_applyApi hs.captured hc)
  case delivered =>
    rw [World.applyApi_impl, hs.generation, hs.deliveredGeneration]
    exact h.delivered
  case worker =>
    intro n hn
    rcases executing_of_applyApi hn with hn | ⟨hspawn, -⟩
    · exact h.worker n hn
    · simp [hs.spawn] at hspawn
  case pending =>
    intro t' p hp
    rw [World.applyApi_impl, hs.generation]
    obtain ⟨hgen, hcap, hdel⟩ := h.pending t' p (hpending t' p hp)
    exact ⟨hgen, fun t'' c hc => hcap t'' c (captured_of_applyApi hs.captured hc), hdel⟩

theorem watched_of_pending {p : ApiPc D} {q : Impl.Previous D} (h : p.pending = some q) :
    p.watched = true := by
  apply watched_of_unlatched
  cases p with
  | start callback p =>
    cases p with
    | rollback q => cases q <;> first | rfl | simp [ApiPc.pending] at h
    | clearStopping | clearExited | create => rfl
    | _ => simp [ApiPc.pending] at h
  | _ => simp [ApiPc.pending] at h

/-- The reset of a `start` opens a new attempt, with a generation that no wait has captured. -/
theorem Attributed.dataReset (h : Attributed w g) (ho : Orderly w) {callback : Option Nat}
    {previous : Impl.Previous D} (hat : w.api t = .start callback (.dataReset previous))
    (hfresh : ∀ t', (w.api t').captured ≠ some (w.impl.generation + 1)) :
    Attributed (w.applyApi config t
        { impl := w.impl.resetData
          pc := .start callback (.clearStopping (w.impl.saveData previous)) })
      { g with begun := g.begun + 1, saved := g.current, current := g.begun + 1 } := by
  have hw : (w.api t).watched = true := watched_of_rewrites (by rw [hat]; rfl)
  constructor
  case waiting =>
    intro t' c hc
    have hc := captured_of_applyApi (.inl rfl) hc
    refine ⟨(h.waiting t' c hc).1, ?_⟩
    rintro rfl
    exact absurd hc (hfresh t')
  case delivered => exact fun hd => by simp [Impl.resetData] at hd
  case worker =>
    intro n hn
    rcases executing_of_applyApi hn with hn | ⟨hspawn, -⟩
    · exact absurd hn (ho.not_executing_of_watched hw n)
    · cases hspawn
  case pending =>
    intro t' p hp
    by_cases ht : t' = t
    · rw [World.applyApi_api, ht, Function.update_self] at hp
      obtain rfl : w.impl.saveData previous = p := Option.some.inj hp
      refine ⟨rfl, fun t'' c hc hgen => ?_, fun hd hne => h.delivered hd hne⟩
      exact (h.waiting t'' c (captured_of_applyApi (.inl rfl) hc)).2 hgen
    · rw [World.applyApi_api, Function.update_of_ne ht] at hp
      exact absurd (ho.watched_unique hw (watched_of_pending hp)) ht

/-- The rollback returns to the attempt before. -/
theorem Attributed.rollbackData (h : Attributed w g) (ho : Orderly w) {callback : Option Nat}
    {previous : Impl.Previous D} (hat : w.api t = .start callback (.rollback .data previous)) :
    Attributed (w.applyApi config t (rollbackNext w.impl t callback previous .data))
      { g with current := g.saved } := by
  have hw : (w.api t).watched = true := watched_of_rewrites (by rw [hat]; rfl)
  obtain ⟨-, hcap, hdel⟩ := h.pending t previous (by rw [hat]; rfl)
  constructor
  case waiting =>
    intro t' c hc
    have hc := captured_of_applyApi (.inl rfl) hc
    exact ⟨(h.waiting t' c hc).1, hcap t' c hc⟩
  case delivered => exact hdel
  case worker =>
    intro n hn
    rcases executing_of_applyApi hn with hn | ⟨hspawn, -⟩
    · exact absurd hn (ho.not_executing_of_watched hw n)
    · cases hspawn
  case pending =>
    intro t' p hp
    by_cases ht : t' = t
    · rw [World.applyApi_api, ht, Function.update_self] at hp
      simp [rollbackNext, ApiPc.pending] at hp
    · rw [World.applyApi_api, Function.update_of_ne ht] at hp
      exact absurd (ho.watched_unique hw (watched_of_pending hp)) ht

/-- The worker that a `start` creates belongs to its attempt. -/
theorem Attributed.create (h : Attributed w g) (ho : Orderly w) {callback : Option Nat}
    {previous : Impl.Previous D} (hat : w.api t = .start callback (.create previous))
    {r : ApiNext D} (hnext : startNext w t callback c (.create previous) = some r) :
    Attributed (w.applyApi config t r)
      { g with worker := Function.update g.worker w.created g.current } := by
  have hw : (w.api t).watched = true := watched_of_unlatched (by rw [hat]; rfl)
  have hr : r.impl.generation = w.impl.generation ∧
      r.impl.deliveredGeneration = w.impl.deliveredGeneration ∧ r.pc.captured = none ∧
      (r.pc.pending = none ∨ r.pc.pending = some previous) := by
    simp only [startNext] at hnext
    split at hnext <;> cases hnext
    · exact ⟨rfl, rfl, rfl, .inl rfl⟩
    · exact ⟨rfl, rfl, rfl, .inr rfl⟩
  obtain ⟨hgen, hdel, hcap, hpend⟩ := hr
  constructor
  case waiting =>
    intro t' c hc
    rw [World.applyApi_impl, hgen]
    exact h.waiting t' c (captured_of_applyApi (.inl hcap) hc)
  case delivered =>
    rw [World.applyApi_impl, hgen, hdel]
    exact h.delivered
  case worker =>
    intro n hn
    rcases executing_of_applyApi hn with hn | ⟨-, hn⟩
    · exact absurd hn (ho.not_executing_of_watched hw n)
    · simp [hn]
  case pending =>
    intro t' p hp
    rw [World.applyApi_impl, hgen]
    have hp : (w.api t').pending = some p := by
      by_cases ht : t' = t
      · rw [World.applyApi_api, ht, Function.update_self] at hp
        rcases hpend with hn | hn <;> rw [hn] at hp
        · simp at hp
        · rw [ht, hat]; exact hp
      · rwa [World.applyApi_api, Function.update_of_ne ht] at hp
    obtain ⟨hg, hc, hd⟩ := h.pending t' p hp
    exact ⟨hg, fun t'' c hc' => hc t'' c (captured_of_applyApi (.inl hcap) hc'), hd⟩

/-- A wait captures the generation of the current attempt. -/
theorem Attributed.enter (h : Attributed w g) {r : ApiNext D} (hat : w.api t = .wait .enter)
    (hnext : waitNext w t c .enter = some r) :
    Attributed (w.applyApi config t r)
        { g with captured := Function.update g.captured t g.current } ∧
      ∀ captured, .waited t captured true ∈ r.events → g.current ∈ g.delivered := by
  have hr : r.impl = w.impl ∧ r.pc.pending = none ∧ r.spawn = false ∧
      (r.pc.captured = none ∨ r.pc.captured = some w.impl.generation ∧ w.impl.generation ≠ 0) ∧
      ∀ captured, .waited t captured true ∈ r.events →
        w.impl.deliveredGeneration = w.impl.generation ∧ w.impl.generation ≠ 0 := by
    simp only [waitNext] at hnext
    split at hnext
    · cases hnext; exact ⟨rfl, rfl, rfl, .inl rfl, by simp⟩
    · split at hnext <;> cases hnext
      · exact ⟨rfl, rfl, rfl, .inl rfl, by simp_all [Impl.waitResult]⟩
      · exact ⟨rfl, rfl, rfl, .inr ⟨rfl, ‹_›⟩, by simp⟩
  obtain ⟨himpl, hpend, hspawn, hcap, hwaited⟩ := hr
  refine ⟨?_, fun captured he => h.delivered (hwaited captured he).1 (hwaited captured he).2⟩
  constructor
  case waiting =>
    intro t' c hc
    rw [World.applyApi_impl, himpl]
    by_cases ht : t' = t
    · rw [World.applyApi_api, ht, Function.update_self] at hc
      rcases hcap with hn | ⟨hn, hne⟩ <;> rw [hn] at hc
      · cases hc
      · cases hc
        exact ⟨hne, fun _ => by simp [ht]⟩
    · rw [World.applyApi_api, Function.update_of_ne ht] at hc
      simp only [Function.update_of_ne ht]
      exact h.waiting t' c hc
  case delivered =>
    rw [World.applyApi_impl, himpl]
    exact h.delivered
  case worker =>
    intro n hn
    rcases executing_of_applyApi hn with hn | ⟨hs, -⟩
    · exact h.worker n hn
    · simp [hspawn] at hs
  case pending =>
    intro t' p hp
    rw [World.applyApi_impl, himpl]
    have ht : t' ≠ t := by
      rintro rfl
      rw [World.applyApi_api, Function.update_self, hpend] at hp
      simp at hp
    rw [World.applyApi_api, Function.update_of_ne ht] at hp
    obtain ⟨hgen, hc, hd⟩ := h.pending t' p hp
    refine ⟨hgen, fun t'' captured hcap' heq => ?_, hd⟩
    by_cases ht' : t'' = t
    · -- it captures the generation of the attempt in progress, not the saved one
      rw [World.applyApi_api, ht', Function.update_self] at hcap'
      rcases hcap with hn | ⟨hn, -⟩ <;> rw [hn] at hcap'
      · cases hcap'
      · cases hcap'; omega
    · rw [World.applyApi_api, Function.update_of_ne ht'] at hcap'
      simp only [Function.update_of_ne ht']
      exact hc t'' captured hcap' heq

/-- Only `wait_for_first_sample` reports the end of a wait. -/
theorem apiNext_waited {p : ApiPc D} {r : ApiNext D} {t' : Tid} {captured : Nat} {result : Bool}
    (hnext : apiNext w t c p = some r) (he : .waited t' captured result ∈ r.events) :
    ∃ q, p = .wait q ∧ t' = t := by
  cases apiNext_step hnext with
  | waitUnstarted | waitAtOnce | waitExpires | waitEnds =>
    simp at he
    exact ⟨_, rfl, he.1⟩
  | stopCommand _ hsend | biasSent hsend | biasRestarted hsend => cases send_byRun hsend _ he
  | biasFailed hsend | biasRestartFailed hsend =>
    rcases List.mem_append.mp he with he | he
    · cases send_byRun hsend _ he
    · simp at he
  | _ => simp at he

theorem recordNext_delivered [Double D] {worker : Worker D} {r : RunNext D} {p : RecordPc D}
    (hnext : recordNext config w n c worker p = some r)
    (hp : ∀ sample outcome, p ≠ .commitData sample outcome) :
    r.impl.deliveredGeneration = w.impl.deliveredGeneration := by
  cases p with
  | account record receivedAt rdt ft =>
    simp only [recordNext] at hnext
    split at hnext
    · cases hnext; rfl
    · rename_i haccount
      obtain ⟨-, rfl, -⟩ := account_some haccount
      split at hnext <;> cases hnext <;> simp only [afterRecord_impl] <;> rfl
  | commitData sample outcome => exact absurd rfl (hp sample outcome)
  | notifyLifecycle | callbackFailed => cases hnext; simp only [afterRecord_impl]; rfl
  | _ =>
    simp only [recordNext] at hnext
    (repeat' split at hnext) <;> cases hnext <;> rfl

section
variable [DecidableEq D] [Double D] {worker : Worker D} {r : RunNext D}

/-- Only the commit of a delivery writes the delivered generation. -/
theorem runNext_delivered {p : RunPc D} (hnext : runNext config w n c worker p = some r)
    (hp : ∀ sample outcome, p ≠ .session (.record (.commitData sample outcome))) :
    r.impl.deliveredGeneration = w.impl.deliveredGeneration := by
  cases p with
  | session p =>
    cases p with
    | record p => exact recordNext_delivered hnext fun sample outcome heq => hp sample outcome (by rw [heq])
    | apply configuration =>
      cases hnext
      simp only [Impl.applyConfiguration]
      split
      · split <;> rfl
      · rfl
    | _ =>
      simp only [runNext, sessionNext] at hnext
      (repeat' split at hnext) <;> cases hnext <;> rfl
  | publish code message => cases hnext; exact (publish_generations ..).2
  | _ =>
    simp only [runNext] at hnext
    (repeat' split at hnext) <;> cases hnext <;> rfl

theorem Attributed.run (h : Attributed w g) (ho : Orderly w)
    (hnext : runNext config w n c (w.workers n) (w.workers n).pc = some r) :
    Attributed (w.applyRun n r) (g.updateRun n (w.workers n).pc) := by
  have hrun := executing_of_next hnext
  have hgen := (runNext_control hnext).generation
  have hfree : ∀ {t p}, (w.api t).pending = some p → False := fun hp =>
    ho.not_executing_of_watched (watched_of_pending hp) n hrun
  have hworker : ∀ k, (w.applyRun n r).executing k → w.executing k := by
    intro k hk
    by_cases hkn : k = n
    · rw [hkn]; exact hrun
    · rw [World.executing, World.applyRun_workers, Function.update_of_ne hkn] at hk
      exact hk
  by_cases hcommit : ∃ sample outcome,
      (w.workers n).pc = .session (.record (.commitData sample outcome))
  · obtain ⟨sample, outcome, hpc⟩ := hcommit
    rw [hpc]
    exact {
      waiting := fun t c hc => by rw [World.applyRun_impl, hgen]; exact h.waiting t c hc
      delivered := fun _ _ => by simp [Attempts.updateRun, h.worker n hrun]
      worker := fun k hk => h.worker k (hworker k hk)
      pending := fun t p hp => (hfree hp).elim }
  · have hghost : g.updateRun n (w.workers n).pc = g := by
      unfold Attempts.updateRun
      split
      · exact absurd ⟨_, _, ‹_›⟩ hcommit
      · rfl
    have hdel := runNext_delivered hnext fun sample outcome hpc => hcommit ⟨sample, outcome, hpc⟩
    rw [hghost]
    exact {
      waiting := fun t c hc => by rw [World.applyRun_impl, hgen]; exact h.waiting t c hc
      delivered := by rw [World.applyRun_impl, hgen, hdel]; exact h.delivered
      worker := fun k hk => h.worker k (hworker k hk)
      pending := fun t p hp => (hfree hp).elim }

theorem Attributed.move {a : Action D} (h : Attributed w g) (ho : Orderly w)
    (hok : FreshGeneration (w, g) a) (hstep : step config w a = some (w', l)) :
    Attributed w' (g.update w a) := by
  cases a with
  | tick | spurious => cases hstep; exact ⟨h.waiting, h.delivered, h.worker, h.pending⟩
  | call t call =>
    simp only [step] at hstep
    (repeat' split at hstep) <;> cases hstep
    have hentry : SameAttempt w (w.api t) { impl := w.impl, pc := call.entry } := by
      cases call <;> exact ⟨rfl, rfl, .inl rfl, .inl rfl, rfl⟩
    have h' : Attributed (w.applyApi config t { impl := w.impl, pc := call.entry }) g :=
      h.same hentry
    exact ⟨h'.waiting, h'.delivered, h'.worker, h'.pending⟩
  | run n c =>
    obtain ⟨r, hnext, -, rfl, -⟩ := step_run hstep
    exact h.run ho hnext
  | api t c =>
    obtain ⟨r, hnext, -, rfl, -⟩ := step_api hstep
    simp only [Attempts.update]
    cases hp : (w.api t).tracked with
    | false =>
      have hghost : g.updateApi w t (w.api t) = g := by
        unfold Attempts.updateApi
        split <;> simp_all [ApiPc.tracked]
      rw [hghost]
      exact h.same (apiNext_sameAttempt hnext hp)
    | true =>
      cases hat : w.api t with
      | start callback p =>
        rw [hat] at hp hnext
        cases p with
        | dataReset previous =>
          cases hnext
          exact h.dataReset ho hat (hok (by rw [hat]; rfl))
        | create previous => exact h.create ho hat hnext
        | rollback q previous =>
          cases q with
          | data => cases hnext; exact h.rollbackData ho hat
          | _ => cases hp
        | _ => cases hp
      | wait q =>
        rw [hat] at hp hnext
        cases q with
        | enter => exact (h.enter (c := c) hat hnext).1
        | _ => cases hp
      | _ => rw [hat] at hp; cases hp

/-- The attempt that a wait captured has delivered when the wait returns true. -/
theorem Attributed.waited {a : Action D} (h : Attributed w g)
    (hstep : step config w a = some (w', l)) {captured : Nat} (he : .waited t captured true ∈ l) :
    (g.update w a).captured t ∈ (g.update w a).delivered := by
  cases a with
  | tick | spurious => cases hstep; simp at he
  | call t' call =>
    simp only [step] at hstep
    (repeat' split at hstep) <;> cases hstep
    simp at he
  | run n c =>
    obtain ⟨r, hnext, -, -, rfl⟩ := step_run hstep
    cases runNext_events hnext _ he
  | api t' c =>
    obtain ⟨r, hnext, -, -, rfl⟩ := step_api hstep
    obtain ⟨q, hat, rfl⟩ := apiNext_waited hnext he
    rw [hat] at hnext
    cases q with
    | enter =>
      have hboth : Attributed (w.applyApi config t r) _ ∧ _ := h.enter (c := c) hat hnext
      simpa [Attempts.update, Attempts.updateApi, hat] using hboth.2 captured he
    | block c => cases hnext; simp at he
    | asleep cap =>
      have hresult : w.impl.waitResult cap = true := by
        simp only [apiNext, waitNext] at hnext
        (repeat' split at hnext) <;> cases hnext <;> simp_all
      simp only [Impl.waitResult, Bool.and_eq_true, decide_eq_true_eq] at hresult
      obtain ⟨hne, hcur⟩ := h.waiting t cap (by rw [hat]; rfl)
      simp only [Attempts.update, Attempts.updateApi, hat]
      rw [hcur hresult.1.symm]
      exact h.delivered (hresult.2.trans hresult.1.symm) (by rw [hresult.1]; exact hne)

/-- The client, with the ghost of its attempts. -/
def attemptMachine (config : Config D) : Machine (World D × Attempts) (Action D) (Event D) :=
  (machine config).withGhost Attempts.update

theorem attributed_of_run {s : World D × Attempts}
    (h : (attemptMachine config).RunIf FreshGeneration (World.initial clock, {}) l s) :
    Reachable config s.1 l ∧ Attributed s.1 s.2 := by
  have hreach : ∀ {v k}, (attemptMachine config).Run (World.initial clock, {}) k v →
      Reachable config v.1 k := fun hv => ⟨clock, hv.eraseGhost⟩
  refine ⟨hreach h.run, h.invariant (I := fun v _ => Attributed v.1 v.2) ?_ ?_⟩
  · exact ⟨by simp [World.initial, ApiPc.captured], by simp [World.initial],
      by simp [World.initial, World.executing, RunPc.running], by simp [World.initial, ApiPc.pending]⟩
  · rintro ⟨v, g⟩ k a ⟨v', g'⟩ k' hv hi hok hstep
    obtain ⟨hbase, rfl⟩ := Machine.withGhost_step.mp hstep
    have hbase : step config v a = some (v', k') := hbase
    exact hi.move (hreach hv).orderly hok hbase

/-- A wait that returns true does so on account of a delivery of the attempt it has captured, in
every run in which no `start` is given a generation that a wait in progress has captured. -/
theorem wait_attributed {s s' : World D × Attempts} {a : Action D}
    (h : (attemptMachine config).RunIf FreshGeneration (World.initial clock, {}) l s)
    (hstep : (attemptMachine config).step s a = some (s', l'))
    (he : .waited t captured true ∈ l') : s'.2.captured t ∈ s'.2.delivered := by
  obtain ⟨v, g⟩ := s
  obtain ⟨v', g'⟩ := s'
  obtain ⟨hbase, rfl⟩ := Machine.withGhost_step.mp hstep
  have hbase : step config v a = some (v', l') := hbase
  exact (attributed_of_run h).2.waited hbase he

end

/-- An attempt that fails, with a wait that is entered while its generation is current. -/
def abandonedWait : List (Action Rat) :=
  .call (.client 0) (.start none) :: List.replicate 7 (.api (.client 0) .go) ++
    [.call (.client 1) .waitForFirstSample, .api (.client 1) .go, .api (.client 1) .go,
      .api (.client 0) (.fails "no thread")] ++ List.replicate 7 (.api (.client 0) .go)

/-- A second attempt that delivers a sample before the wait goes on. -/
def lateWait : (World Rat × Attempts) × List (Event Rat) :=
  (attemptMachine (demoConfig .failStop)).perform (World.initial 1, {})
    (abandonedWait ++ startActions (.client 0) ++ openActions 0 ++
      receiveActions 0 (List.replicate 36 0) ++ [.api (.client 1) .go])

theorem wait_misattributed :
    ∃ captured, (attemptMachine (demoConfig .failStop)).Run (World.initial 1, {}) lateWait.2
        lateWait.1 ∧
      .waited (.client 1) captured true ∈ lateWait.2 ∧
      lateWait.1.2.captured (.client 1) ∉ lateWait.1.2.delivered := by
  refine ⟨1, Machine.run_perform (by decide +kernel), by decide +kernel, by decide +kernel⟩

/-- A `start` that stands before its reset. -/
def beforeReset : (World Rat × Attempts) × List (Event Rat) :=
  (attemptMachine (demoConfig .failStop)).perform (World.initial 1, {})
    (.call (.client 0) (.start (some 0)) :: List.replicate 4 (.api (.client 0) .go))

def afterReset : (World Rat × Attempts) × List (Event Rat) :=
  (attemptMachine (demoConfig .failStop)).perform beforeReset.1 [.api (.client 0) .go]

/-- A wait during the attempt, and the delivery of a sample. -/
def deliveredWait : (World Rat × Attempts) × List (Event Rat) :=
  (attemptMachine (demoConfig .failStop)).perform afterReset.1
    (List.replicate 2 (.api (.client 0) .go) ++ .api (.client 0) .succeeds ::
      List.replicate 3 (.api (.client 0) .go) ++
      [.call (.client 1) .waitForFirstSample, .api (.client 1) .go, .api (.client 1) .go] ++
      openActions 0 ++ receiveActions 0 (List.replicate 36 0))

def endedWait : (World Rat × Attempts) × List (Event Rat) :=
  (attemptMachine (demoConfig .failStop)).perform deliveredWait.1 [.api (.client 1) .go]

theorem wait_attributed_endedWait :
    .waited (.client 1) 1 true ∈ endedWait.2 ∧
      endedWait.1.2.captured (.client 1) ∈ endedWait.1.2.delivered := by
  have hexec : ((attemptMachine (demoConfig .failStop)).exec (World.initial 1, {})
      (.call (.client 0) (.start (some 0)) :: List.replicate 4 (.api (.client 0) .go))).isSome := by
    decide +kernel
  have hbefore : (attemptMachine (demoConfig .failStop)).RunIf FreshGeneration
      (World.initial 1, {}) beforeReset.2 beforeReset.1 := Machine.runIf_perform
    (fun s => s.1.apiPasses (!·.resets)) (by decide +kernel) fun s a ha => by
        cases a with
        | api t c => intro hr; simp [World.apiPasses, hr] at ha
        | _ => trivial
  have hfresh : FreshGeneration beforeReset.1 (.api (.client 0) .go) := by
    intro _ t
    by_cases ht : t = .client 0
    · subst ht; decide +kernel
    · have hbase := Machine.exec_eraseGhost (Machine.exec_eq_perform hexec)
      have hidle := exec_api_of_ne hbase (t := t) (by simpa [Action.caller] using Ne.symm ht)
      rw [show beforeReset.1.1.api t = .idle from hidle]
      simp [ApiPc.captured]
  have hreset : (attemptMachine (demoConfig .failStop)).step beforeReset.1
      (.api (.client 0) .go) = some (afterReset.1, afterReset.2) :=
    Machine.step_perform (by decide +kernel)
  have hafter : (attemptMachine (demoConfig .failStop)).RunIf FreshGeneration
      afterReset.1 deliveredWait.2 deliveredWait.1 := Machine.runIf_perform
    (fun s => s.1.apiPasses (!·.resets)) (by decide +kernel) fun s a ha => by
        cases a with
        | api t c => intro hr; simp [World.apiPasses, hr] at ha
        | _ => trivial
  have hend : (attemptMachine (demoConfig .failStop)).step deliveredWait.1 (.api (.client 1) .go) =
      some (endedWait.1, endedWait.2) := Machine.step_perform (by decide +kernel)
  have he : .waited (.client 1) 1 true ∈ endedWait.2 := by decide +kernel
  exact ⟨he, wait_attributed ((hbefore.tail hfresh hreset).trans hafter) hend he⟩

end NetFT.Client
