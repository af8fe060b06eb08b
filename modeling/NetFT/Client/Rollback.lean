import NetFT.Client.Faults

/-! A `start` that fails to create its thread leaves the client as it was when no worker was left.
`ApiPc.target` is what a `start` that fails from its present position on would leave behind; its own
steps keep the target, and those of concurrent readers, biases and waits keep it up to expired
entries of the rate windows. Before that a `start` only waits: what changes then, the last worker
changes on its way out. -/

namespace NetFT.Client
open Detail Library

variable {D : Type}

/-! ## Rate windows -/

theorem pruneRateWindow_suffix (now : TimePoint) (times : List TimePoint) :
    Impl.pruneRateWindow now times <:+ times := by
  induction times with
  | nil => exact List.suffix_refl _
  | cons x times ih =>
    simp only [Impl.pruneRateWindow]
    split
    · exact ih.trans (List.suffix_cons ..)
    · exact List.suffix_refl _

/-- What has expired stays expired. -/
theorem pruneRateWindow_of_le {now now' : TimePoint} (h : now ≤ now') (times : List TimePoint) :
    Impl.pruneRateWindow now' (Impl.pruneRateWindow now times) =
      Impl.pruneRateWindow now' times := by
  induction times with
  | nil => rfl
  | cons x times ih =>
    simp only [Impl.pruneRateWindow]
    split
    · rename_i hold
      rw [ih, if_pos (Nat.lt_of_lt_of_le hold (Nat.sub_le_sub_right h x))]
    · rfl

/-- `times'` is `times` without some of the entries that have expired at `now`. -/
structure Expired (now : TimePoint) (times times' : List TimePoint) : Prop where
  suffix : times' <:+ times
  live : Impl.pruneRateWindow now times' = Impl.pruneRateWindow now times

theorem Expired.refl (now : TimePoint) (times : List TimePoint) : Expired now times times :=
  ⟨List.suffix_refl _, rfl⟩

theorem Expired.trans {now now' : TimePoint} {a b d : List TimePoint} (h : Expired now a b)
    (h' : Expired now' b d) (hle : now ≤ now') : Expired now' a d where
  suffix := h'.suffix.trans h.suffix
  live := by
    rw [h'.live, ← pruneRateWindow_of_le hle b, h.live, pruneRateWindow_of_le hle]

theorem expired_prune (now : TimePoint) (times : List TimePoint) :
    Expired now times (Impl.pruneRateWindow now times) :=
  ⟨pruneRateWindow_suffix .., pruneRateWindow_of_le (Nat.le_refl _) _⟩

/-! ## Kept members -/

/-- The members that a failed `start` must not change, at clock value `now`. -/
structure Kept (now : TimePoint) (i i' : Impl D) : Prop where
  faultLatch : i'.faultLatch = i.faultLatch
  health : i'.health = i.health
  latest : i'.latest = i.latest
  callback : i'.callback = i.callback
  lastDeliveryAt : i'.lastDeliveryAt = i.lastDeliveryAt
  lastRecordAt : i'.lastRecordAt = i.lastRecordAt
  generation : i'.generation = i.generation
  deliveredGeneration : i'.deliveredGeneration = i.deliveredGeneration
  receiveTimes : Expired now i.receiveTimes i'.receiveTimes
  deliveryTimes : Expired now i.deliveryTimes i'.deliveryTimes
  consecutiveMalformed : i'.consecutiveMalformed = i.consecutiveMalformed
  stopping : i'.stopping = i.stopping
  workerExited : i'.workerExited = i.workerExited
  rdtSequence : i'.rdtSequence = i.rdtSequence
  ftSequence : i'.ftSequence = i.ftSequence
  sessionStarted : i'.sessionStarted = i.sessionStarted
  transport : i'.transport = i.transport

theorem Kept.refl (now : TimePoint) (i : Impl D) : Kept now i i :=
  ⟨rfl, rfl, rfl, rfl, rfl, rfl, rfl, rfl, .refl .., .refl .., rfl, rfl, rfl, rfl, rfl, rfl, rfl⟩

theorem Kept.trans {now now' : TimePoint} {i i' i'' : Impl D} (h : Kept now i i')
    (h' : Kept now' i' i'') (hle : now ≤ now') : Kept now' i i'' where
  faultLatch := h'.faultLatch.trans h.faultLatch
  health := h'.health.trans h.health
  latest := h'.latest.trans h.latest
  callback := h'.callback.trans h.callback
  lastDeliveryAt := h'.lastDeliveryAt.trans h.lastDeliveryAt
  lastRecordAt := h'.lastRecordAt.trans h.lastRecordAt
  generation := h'.generation.trans h.generation
  deliveredGeneration := h'.deliveredGeneration.trans h.deliveredGeneration
  receiveTimes := h.receiveTimes.trans h'.receiveTimes hle
  deliveryTimes := h.deliveryTimes.trans h'.deliveryTimes hle
  consecutiveMalformed := h'.consecutiveMalformed.trans h.consecutiveMalformed
  stopping := h'.stopping.trans h.stopping
  workerExited := h'.workerExited.trans h.workerExited
  rdtSequence := h'.rdtSequence.trans h.rdtSequence
  ftSequence := h'.ftSequence.trans h.ftSequence
  sessionStarted := h'.sessionStarted.trans h.sessionStarted
  transport := h'.transport.trans h.transport

/-- Time passes. -/
theorem Kept.later {now now' : TimePoint} {i i' : Impl D} (h : Kept now i i') (hle : now ≤ now') :
    Kept now' i i' := h.trans (.refl now' i') hle

/-- The condition variables and the handle are not among them. -/
theorem Kept.handle {now : TimePoint} {i : Impl D} {lifecycleCv firstSampleCv : List Tid}
    {worker : Option Nat} {joining : Bool} {activeWorkerId : Option Tid} :
    Kept now i { i with lifecycleCv, firstSampleCv, worker, joining, activeWorkerId } :=
  { Kept.refl now i with }

/-! ## What a failing `start` leaves behind -/

/-- The members with the flags, the latch and the callback that were saved. -/
def Impl.withFlags (i : Impl D) (p : Impl.Previous D) : Impl D :=
  { i with
    stopping := p.stopping, workerExited := p.workerExited, faultLatch := p.fault
    callback := p.callback }

/-- The members that are left behind by a `start` that fails from its present position on. -/
def ApiPc.target (i : Impl D) : ApiPc D → Impl D
  | .start _ (.recordReset p) => i.withFlags p
  | .start _ (.dataReset p) => { i.withFlags p with lastDeliveryAt := p.lastDelivery }
  | .start _ (.clearStopping p) | .start _ (.clearExited p) | .start _ (.create p)
  | .start _ (.rollback .stopping p) =>
    { (i.withFlags p).restoreData p with lastDeliveryAt := p.lastDelivery }
  | .start _ (.rollback .exited p) =>
    { i.restoreData p with
      workerExited := p.workerExited, callback := p.callback, faultLatch := p.fault
      lastDeliveryAt := p.lastDelivery }
  | .start _ (.rollback .record p) =>
    { i.restoreData p with faultLatch := p.fault, lastDeliveryAt := p.lastDelivery }
  | .start _ (.rollback .data p) => { i.restoreData p with faultLatch := p.fault }
  | .start _ (.rollback .latchReset p) | .start _ (.rollback .publish p) =>
    { i with faultLatch := p.fault }
  | _ => i

/-- The record that a rollback has restored, until it has restored the latch. -/
def ApiPc.restoredHealth : ApiPc D → Option (HealthSnapshot D)
  | .start _ (.rollback .latchReset p) | .start _ (.rollback .publish p) => some p.health
  | _ => none

theorem Kept.restoreData {now : TimePoint} {i i' : Impl D} (h : Kept now i i')
    (p : Impl.Previous D) : Kept now (i.restoreData p) (i'.restoreData p) :=
  { h with
    health := rfl, latest := rfl, lastRecordAt := rfl, generation := rfl
    deliveredGeneration := rfl, receiveTimes := .refl .., deliveryTimes := .refl ..
    consecutiveMalformed := rfl }

/-- The target depends on the members only through those that it keeps. -/
theorem Kept.target {now : TimePoint} {i i' : Impl D} (h : Kept now i i') (p : ApiPc D) :
    Kept now (p.target i) (p.target i') := by
  cases p with
  | start callback p =>
    cases p with
    | recordReset p =>
      exact { h with stopping := rfl, workerExited := rfl, faultLatch := rfl, callback := rfl }
    | dataReset p =>
      exact { h with
        stopping := rfl, workerExited := rfl, faultLatch := rfl, callback := rfl
        lastDeliveryAt := rfl }
    | clearStopping p | clearExited p | create p =>
      exact { h.restoreData p with
        stopping := rfl, workerExited := rfl, faultLatch := rfl, callback := rfl
        lastDeliveryAt := rfl }
    | rollback q p =>
      cases q with
      | stopping =>
        exact { h.restoreData p with
          stopping := rfl, workerExited := rfl, faultLatch := rfl, callback := rfl
          lastDeliveryAt := rfl }
      | exited =>
        exact { h.restoreData p with
          workerExited := rfl, faultLatch := rfl, callback := rfl, lastDeliveryAt := rfl }
      | record => exact { h.restoreData p with faultLatch := rfl, lastDeliveryAt := rfl }
      | data => exact { h.restoreData p with faultLatch := rfl }
      | latchReset | publish => exact { h with faultLatch := rfl }
      | notifyFirst | notifyLifecycle => exact h
    | _ => exact h
  | _ => exact h

variable {config : Config D} {w w' : World D} {t : Tid} {n : Nat} {c : Choice D}

/-- The positions of `start` before it has seen that no worker is left. -/
def ApiPc.prepares (callback : Option Nat) : ApiPc D → Prop
  | .start callback' .lock | .start callback' .joiningBlock | .start callback' .joiningAsleep
  | .start callback' .joinable | .start callback' .faulted | .start callback' .exitEval
  | .start callback' .exitBlock | .start callback' .exitAsleep | .start callback' (.join _)
  | .start callback' (.reaped _) | .start callback' .reapedNotify => callback' = callback
  | _ => False

/-- The positions of `start` from the saving of the state up to the creation of the thread, and those
of its rollback. -/
def ApiPc.commits (callback : Option Nat) : ApiPc D → Prop
  | .start callback' .save | .start callback' (.recordReset _) | .start callback' (.dataReset _)
  | .start callback' (.clearStopping _) | .start callback' (.clearExited _)
  | .start callback' (.create _) | .start callback' (.rollback ..) => callback' = callback
  | _ => False

def ApiPc.attempts (callback : Option Nat) (p : ApiPc D) : Prop :=
  p.prepares callback ∨ p.commits callback

theorem start_of_attempts {p : ApiPc D} {callback : Option Nat} (h : p.attempts callback) :
    ∃ q, p = .start callback q := by
  cases p with
  | start callback' q =>
    obtain rfl : callback' = callback := by
      cases q <;> rcases h with h | h <;> first | exact h | cases h
    exact ⟨q, rfl⟩
  | _ => rcases h with h | h <;> cases h

theorem not_commits_of_prepares {p : ApiPc D} {callback : Option Nat} (h : p.prepares callback) :
    ¬ p.commits callback := by
  intro hc
  obtain ⟨q, rfl⟩ := start_of_attempts (.inl h)
  cases q <;> first | exact hc | exact h

theorem apiNext_prepares {p : ApiPc D} {r : ApiNext D} {callback : Option Nat}
    (hnext : apiNext w t c p = some r) (hr : r.pc.prepares callback) : p.prepares callback := by
  cases apiNext_step hnext <;> first | exact hr | cases hr

/-- What is saved is what was there when no worker was left. -/
theorem apiNext_commits {p : ApiPc D} {r : ApiNext D} {callback : Option Nat}
    (hnext : apiNext w t c p = some r) (hr : r.pc.commits callback) :
    p.commits callback ∨ p.prepares callback ∧ r.pc = .start callback .save := by
  cases apiNext_step hnext with
  | noWorker => exact .inr ⟨hr, by rw [show _ = callback from hr]⟩
  | _ => first | exact .inl hr | cases hr

/-- A `start` leaves its attempt by returning or throwing, or by creating a thread. -/
theorem apiNext_attempts {p : ApiPc D} {r : ApiNext D} {callback : Option Nat}
    (hnext : apiNext w t c p = some r) (hr : r.pc.attempts callback) :
    p.attempts callback ∧ r.spawn = false := by
  refine ⟨?_, ?_⟩
  · rcases hr with hr | hr
    · exact .inl (apiNext_prepares hnext hr)
    · exact (apiNext_commits hnext hr).symm.imp_left (·.1)
  · cases apiNext_step hnext with
    | created => rcases hr with hr | hr <;> cases hr
    | _ => rfl

/-- Until a `start` has seen that no worker is left it writes to the handle only. -/
theorem apiNext_preparing {p : ApiPc D} {r : ApiNext D} {callback : Option Nat}
    (now : TimePoint) (hnext : apiNext w t c p = some r) (hp : p.prepares callback) :
    Kept now w.impl r.impl := by
  cases apiNext_step hnext <;> first | exact .handle | cases hp

/-- The only way for `start` to throw this. -/
theorem apiNext_threw {p : ApiPc D} {r : ApiNext D} {callback : Option Nat}
    (hnext : apiNext w t c p = some r)
    (he : .threw t (.start callback) "thread creation failed" ∈ r.events) :
    ∃ previous, p = .start callback (.rollback .notifyLifecycle previous) ∧
      r.impl = w.impl.notifyLifecycle := by
  cases apiNext_step hnext with
  | @rolledBack callback' previous =>
    obtain rfl : callback = callback' := by simpa using he
    exact ⟨previous, rfl, rfl⟩
  | stopCommand _ h | biasSent h | biasRestarted h => cases send_byRun h _ he
  | biasFailed h | biasRestartFailed h =>
    rcases List.mem_append.mp he with he | he
    · cases send_byRun h _ he
    · simp at he
  | _ => simp at he

/-- The steps of a `start` that does not create a thread keep the target. -/
theorem startNext_target (now : TimePoint) {callback : Option Nat} {p : StartPc D} {r : ApiNext D}
    (hc : Coherent w) (hat : w.api t = .start callback p)
    (hhealth : ∀ h, (w.api t).restoredHealth = some h → w.impl.health = h)
    (hnext : startNext w t callback c p = some r) (hspawn : r.spawn = false) :
    Kept now ((w.api t).target w.impl) (r.pc.target r.impl) ∧
      ∀ h, r.pc.restoredHealth = some h → r.impl.health = h := by
  have hleaves : ∀ {q : ApiPc D} {i : Impl D}, Kept now w.impl i → q.target i = i →
      q.restoredHealth = none → (w.api t).target w.impl = w.impl →
      Kept now ((w.api t).target w.impl) (q.target i) ∧
        ∀ h, q.restoredHealth = some h → i.health = h := by
    intro q i hk hq hnone htarget
    rw [hq, htarget, hnone]
    exact ⟨hk, by simp⟩
  cases startNext_step hnext with
  | created => cases hspawn
  | rollbackData =>
    rw [hat]
    exact ⟨.refl .., fun h hh => Option.some.inj hh⟩
  | @rollbackFault _ previous =>
    rw [hat] at hhealth ⊢
    exact ⟨.refl .., fun h hh => (hhealth previous.health rfl).trans (Option.some.inj hh)⟩
  | @rollbackNoFault _ previous hnone =>
    rw [hat]
    refine ⟨?_, by simp [ApiPc.restoredHealth]⟩
    simp only [ApiPc.target, hnone]
    exact .refl ..
  | @rollbackPublish _ previous =>
    -- the record is restored and agrees with the code that was saved, so publishing changes neither
    have hsaved := hc.snapshot t previous (by rw [hat]; rfl)
    have hopen : w.impl.faultLatch = .none := hc.api t (by rw [hat]; rfl)
    have hfault := hc.faulted t previous (by rw [hat]; rfl) (by rw [hat]; rfl)
    have hrecord := hhealth previous.health (by rw [hat]; rfl)
    have hsame : { w.impl.health with
        state := .faulted, faultCode := previous.fault, lastError := previous.health.lastError } =
        w.impl.health := by
      rw [hrecord, ← hsaved.state.mpr hfault, ← hsaved.code]
    rw [hat]
    refine ⟨?_, by simp [ApiPc.restoredHealth]⟩
    simp only [Impl.publish, hopen, if_true, ApiPc.target, hsame]
    exact .refl ..
  | rollbackNotifyFirst | rolledBack =>
    rw [hat]
    exact ⟨.handle, by simp [ApiPc.restoredHealth]⟩
  | save | recordReset | dataReset | clearStopping | clearExited | notCreated | rollbackStopping
  | rollbackExited | rollbackRecord =>
    rw [hat]
    exact ⟨.refl .., by simp [ApiPc.restoredHealth]⟩
  | _ => exact hleaves .handle rfl rfl (by rw [hat]; rfl)

/-! ## Bystanders -/

/-- The entry points other than `start` and `stop`. -/
def ApiPc.bystander : ApiPc D → Bool
  | .start .. | .stop _ => false
  | _ => true

def Call.bystander : Call → Bool
  | .start _ | .stop => false
  | _ => true

/-- Only thread `t`, the workers, and threads in `bias`, `wait_for_first_sample` or a query take
steps. -/
def Bystanders (t : Tid) (w : World D) : Action D → Prop
  | .tick _ | .spurious _ | .run .. => True
  | .call t' call => t' ≠ t ∧ call.bystander = true
  | .api t' _ => t' = t ∨ (w.api t').bystander = true

/-- Outside of a session a bystander only reads, and drops expired entries. -/
theorem apiNext_bystander {r : ApiNext D} (hnext : apiNext w t c (w.api t) = some r)
    (hp : (w.api t).bystander = true) (hb : (w.api t).biasing = false)
    (hs : w.impl.sessionStarted = false) :
    Kept w.clock w.impl r.impl ∧ r.impl.worker = w.impl.worker ∧
      r.impl.joining = w.impl.joining ∧ r.impl.activeWorkerId = w.impl.activeWorkerId ∧
      r.pc.biasing = false := by
  generalize w.api t = p at hnext hp hb
  cases apiNext_step hnext with
  | biasAllowed h => simp [Impl.biasAllowed, hs] at h
  | health =>
    exact ⟨{ Kept.refl w.clock w.impl with
      receiveTimes := expired_prune .., deliveryTimes := expired_prune .. }, rfl, rfl, rfl, rfl⟩
  | biasSent | biasFailed | biasRestarted | biasRestartFailed | biasReset => cases hb
  | _ => first | exact ⟨.handle, rfl, rfl, rfl, rfl⟩ | cases hp

theorem apiNext_bystander_spawn {p : ApiPc D} {r : ApiNext D} (hnext : apiNext w t c p = some r)
    (hp : p.bystander = true) : r.spawn = false := by
  cases apiNext_step hnext <;> first | rfl | cases hp

/-! ## The attempt -/

/-- The thread handle is the one before the attempt, or it was joined and forgotten. -/
structure Handled (i₀ : Impl D) (p : ApiPc D) (i : Impl D) : Prop where
  joining : p.role.joins = none → i.joining = i₀.joining
  before : p.role.joins ≠ none → i₀.joining = false
  handle : i.worker = i₀.worker ∧ i.activeWorkerId = i₀.activeWorkerId ∨
    i.worker = none ∧ (p.role.joins = none → i.activeWorkerId = none)

theorem Handled.same {i₀ i i' : Impl D} {p p' : ApiPc D} (h : Handled i₀ p i)
    (hp : p.role.joins = none) (hp' : p'.role.joins = none) (hworker : i'.worker = i.worker)
    (hjoining : i'.joining = i.joining) (hactive : i'.activeWorkerId = i.activeWorkerId) :
    Handled i₀ p' i' where
  joining := fun _ => hjoining.trans (h.joining hp)
  before := fun hne => absurd hp' hne
  handle := by
    rw [hworker, hactive]
    exact h.handle.imp_right fun hn => ⟨hn.1, fun _ => hn.2 hp⟩

theorem startNext_handled {i₀ : Impl D} {callback : Option Nat} {p : StartPc D} {r : ApiNext D}
    (hi : w.life.Inv) (hat : w.api t = .start callback p) (h : Handled i₀ (w.api t) w.impl)
    (hnext : startNext w t callback c p = some r) (hp : (w.api t).attempts callback)
    (hspawn : r.spawn = false) : Handled i₀ r.pc r.impl := by
  rw [hat] at h hp
  cases startNext_step hnext with
  | created => cases hspawn
  | setActive | startNotifyFirst | started => rcases hp with hp | hp <;> cases hp
  | takeExited =>
    have hfree : w.impl.joining = false :=
      hi.settled t (by simp [World.life, hat, ApiPc.role, StartPc.role])
    exact {
      joining := by simp [ApiPc.role, StartPc.role, Role.joins]
      before := fun _ => (h.joining rfl).symm.trans hfree
      handle := .inr ⟨rfl, by simp [ApiPc.role, StartPc.role, Role.joins]⟩ }
  | startJoin =>
    exact {
      joining := by simp [ApiPc.role, StartPc.role, Role.joins]
      before := fun _ => h.before (by simp [ApiPc.role, StartPc.role, Role.joins])
      handle := h.handle.imp_right fun hn =>
        ⟨hn.1, by simp [ApiPc.role, StartPc.role, Role.joins]⟩ }
  | @reaped _ k =>
    have hjoins : (w.life.role t).joins = some k := by
      simp [World.life, hat, ApiPc.role, StartPc.role, Role.joins]
    have hworker : w.impl.worker = none := by
      have hjoining := (hi.joiner t k hjoins).2
      cases hw : w.impl.worker with
      | none => rfl
      | some m => simp [(hi.handle m hw).2] at hjoining
    exact {
      joining := fun _ => (h.before (by simp [ApiPc.role, StartPc.role, Role.joins])).symm
      before := by simp [ApiPc.role, StartPc.role, Role.joins]
      handle := .inr ⟨hworker, fun _ => rfl⟩ }
  | @rollbackPublish _ previous =>
    have hsame := publish_control (i := w.impl) previous.fault previous.health.lastError
    exact h.same rfl rfl hsame.worker hsame.joining hsame.activeWorkerId
  | _ => exact h.same rfl rfl rfl rfl rfl

/-- Thread `t` attempts to start the client that was in state `w₀`, and no worker is left. -/
structure Revocable (t : Tid) (w₀ w : World D) : Prop where
  kept : Kept w.clock w₀.impl ((w.api t).target w.impl)
  restored : ∀ h, (w.api t).restoredHealth = some h → w.impl.health = h
  handled : Handled w₀.impl (w.api t) w.impl
  biasing : ∀ t', (w.api t').biasing = false
  resting : ∀ n, ¬ w.executing n

/-- Before the creation of the thread no position but the last stages of the rollback has written
to the session flag, which the target never overrides. -/
theorem target_sessionStarted (i : Impl D) (p : ApiPc D) :
    (p.target i).sessionStarted = i.sessionStarted := by
  cases p with
  | start callback p =>
    cases p with
    | rollback q => cases q <;> rfl
    | _ => rfl
  | _ => rfl

theorem biasing_applyApi {r : ApiNext D} (h : ∀ t', (w.api t').biasing = false)
    (hr : r.pc.biasing = false) (t' : Tid) : ((w.applyApi config t r).api t').biasing = false := by
  by_cases ht : t' = t
  · rw [World.applyApi_api, ht, Function.update_self]
    exact hr
  · rw [World.applyApi_api, Function.update_of_ne ht]
    exact h t'

theorem resting_applyApi {r : ApiNext D} (h : ∀ n, ¬ w.executing n) (hspawn : r.spawn = false) :
    ∀ n, ¬ (w.applyApi config t r).executing n := by
  simpa [World.executing, World.applyApi, hspawn] using h

/-- A step of a bystander. -/
theorem Revocable.beside {w₀ : World D} {t' : Tid} {r : ApiNext D} (h : Revocable t w₀ w)
    (hs : w.impl.sessionStarted = false) (hnext : apiNext w t' c (w.api t') = some r)
    (ht : t' ≠ t) (hbystander : (w.api t').bystander = true) :
    Revocable t w₀ (w.applyApi config t' r) := by
  obtain ⟨hkept, hworker, hjoining, hactive, hb⟩ :=
    apiNext_bystander hnext hbystander (h.biasing t') hs
  have hsame : (w.applyApi config t' r).api t = w.api t := by
    rw [World.applyApi_api, Function.update_of_ne (Ne.symm ht)]
  refine ⟨?_, ?_, ?_, biasing_applyApi h.biasing hb,
    resting_applyApi h.resting (apiNext_bystander_spawn hnext hbystander)⟩ <;> rw [hsame]
  · exact h.kept.trans (hkept.target _) (Nat.le_refl _)
  · exact fun hh hr => hkept.health.trans (h.restored hh hr)
  · exact {
      joining := fun hj => hjoining.trans (h.handled.joining hj)
      before := h.handled.before
      handle := by rw [World.applyApi_impl, hworker, hactive]; exact h.handled.handle }

section
variable [DecidableEq D] [Double D] {w₀ : World D} {callback : Option Nat}

/-- The position of `t` before a step that `t` itself did not begin. -/
theorem step_position {a : Action D} (hok : Bystanders t w a)
    (hstep : step config w a = some (w', l)) :
    w'.api t = w.api t ∨ ∃ c r, apiNext w t c (w.api t) = some r ∧ w'.api t = r.pc := by
  cases a with
  | tick | spurious => cases hstep; exact .inl rfl
  | run n c =>
    obtain ⟨r, -, -, rfl, -⟩ := step_run hstep
    exact .inl rfl
  | call t' call =>
    exact .inl (step_api_of_ne hstep (t := t) (by simpa [Action.caller] using hok.1))
  | api t' c =>
    obtain ⟨r, hnext, -, rfl, -⟩ := step_api hstep
    by_cases ht : t' = t
    · subst ht
      exact .inr ⟨c, r, hnext, by rw [World.applyApi_api, Function.update_self]⟩
    · exact .inl (by rw [World.applyApi_api, Function.update_of_ne (Ne.symm ht)])

theorem step_prepares {a : Action D} (hok : Bystanders t w a)
    (hstep : step config w a = some (w', l)) (h : (w'.api t).prepares callback) :
    (w.api t).prepares callback := by
  rcases step_position hok hstep with hsame | ⟨c, r, hnext, hr⟩
  · rwa [hsame] at h
  · exact apiNext_prepares hnext (hr ▸ h)

theorem step_commits {a : Action D} (hok : Bystanders t w a)
    (hstep : step config w a = some (w', l)) (h : (w'.api t).commits callback) :
    (w.api t).commits callback ∨
      (w.api t).prepares callback ∧ w'.api t = .start callback .save := by
  rcases step_position hok hstep with hsame | ⟨c, r, hnext, hr⟩
  · rw [hsame] at h
    exact .inl h
  · rw [hr] at h ⊢
    exact apiNext_commits hnext h

theorem step_attempts {a : Action D} (hok : Bystanders t w a)
    (hstep : step config w a = some (w', l)) (h : (w'.api t).attempts callback) :
    (w.api t).attempts callback := by
  rcases h with h | h
  · exact .inl (step_prepares hok hstep h)
  · exact (step_commits hok hstep h).symm.imp_left (·.1)

/-- A step of the attempt itself. -/
theorem Revocable.own {r : ApiNext D} (h : Revocable t w₀ w) (hw : Reachable config w l)
    (hnext : apiNext w t c (w.api t) = some r) (hatt : r.pc.attempts callback) :
    Revocable t w₀ (w.applyApi config t r) := by
  obtain ⟨hbefore, hspawn⟩ := apiNext_attempts hnext hatt
  obtain ⟨p, hat⟩ := start_of_attempts hbefore
  obtain ⟨p', hpc⟩ := start_of_attempts hatt
  have hnext' : startNext w t callback c p = some r := by rw [hat] at hnext; exact hnext
  obtain ⟨hkept, hrestored⟩ := startNext_target w.clock hw.coherent hat h.restored hnext' hspawn
  have hself : (w.applyApi config t r).api t = r.pc := by
    rw [World.applyApi_api, Function.update_self]
  refine ⟨?_, ?_, ?_, biasing_applyApi h.biasing (by rw [hpc]; rfl),
    resting_applyApi h.resting hspawn⟩ <;> rw [hself]
  · exact h.kept.trans hkept (Nat.le_refl _)
  · exact hrestored
  · exact startNext_handled hw.orderly.life hat h.handled hnext' hbefore hspawn

theorem Revocable.move {a : Action D} (h : Revocable t w₀ w) (hw : Reachable config w l)
    (hs : w₀.impl.sessionStarted = false) (hok : Bystanders t w a)
    (hstep : step config w a = some (w', l')) (hatt : (w'.api t).attempts callback) :
    Revocable t w₀ w' := by
  cases a with
  | tick ticks =>
    cases hstep
    exact ⟨h.kept.later (Nat.le_add_right ..), h.restored,
      ⟨h.handled.joining, h.handled.before, h.handled.handle⟩, h.biasing, h.resting⟩
  | spurious t' =>
    cases hstep
    refine ⟨?_, h.restored, ⟨h.handled.joining, h.handled.before, h.handled.handle⟩, h.biasing,
      h.resting⟩
    exact h.kept.trans (Kept.handle.target _) (Nat.le_refl _)
  | run n c =>
    obtain ⟨r, hnext, -, -, -⟩ := step_run hstep
    exact absurd (executing_of_next hnext) (h.resting n)
  | call t' call =>
    obtain ⟨hne, hcall⟩ := hok
    have hsame : w'.api t = w.api t := step_api_of_ne hstep (by simpa [Action.caller] using hne)
    simp only [step] at hstep
    (repeat' split at hstep) <;> cases hstep
    refine ⟨by rw [hsame]; exact h.kept, by rw [hsame]; exact h.restored,
      by rw [hsame]; exact h.handled, fun t'' => ?_, h.resting⟩
    by_cases ht : t'' = t'
    · rw [World.enter_api, ht, Function.update_self]
      cases call <;> rfl
    · rw [World.enter_api, Function.update_of_ne ht]
      exact h.biasing t''
  | api t' c =>
    obtain ⟨r, hnext, -, rfl, -⟩ := step_api hstep
    by_cases ht : t' = t
    · subst ht
      rw [World.applyApi_api, Function.update_self] at hatt
      exact h.own hw hnext hatt
    · have hsession : w.impl.sessionStarted = false := by
        have hkept := h.kept.sessionStarted
        rw [target_sessionStarted] at hkept
        exact hkept.trans hs
      exact h.beside hsession hnext ht (hok.resolve_left ht)

/-- An attempt that goes on from a state in which no worker is left. -/
theorem revocable_of_run (h : Reachable config w₀ l) (hrest : ∀ n, ¬ w₀.executing n)
    (hentry : w₀.api t = .start callback .lock ∨ w₀.api t = .start callback .save)
    (hrun : (machine config).RunIf (Bystanders t) w₀ k w) (hatt : (w.api t).attempts callback) :
    Revocable t w₀ w := by
  have hs : w₀.impl.sessionStarted = false :=
    (h.shut.closed fun n => shut_of_not_running (eq_false_of_ne_true (hrest n))).2
  obtain ⟨m, -, hwire⟩ := h.onWire
  have hbegin : Revocable t w₀ w₀ := by
    refine ⟨?_, ?_, ⟨fun _ => rfl, ?_, .inl ⟨rfl, rfl⟩⟩, hwire.no_biasing hs, hrest⟩ <;>
      rcases hentry with hentry | hentry <;> rw [hentry]
    · exact .refl ..
    · exact .refl ..
    · simp [ApiPc.restoredHealth]
    · simp [ApiPc.restoredHealth]
    · simp [ApiPc.role, StartPc.role, Role.joins]
    · simp [ApiPc.role, StartPc.role, Role.joins]
  suffices hinv : (w.api t).attempts callback → Revocable t w₀ w from hinv hatt
  refine hrun.invariant (I := fun v _ => (v.api t).attempts callback → Revocable t w₀ v)
    (fun _ => hbegin) ?_
  intro v k a v' k' hv ih hok hstep hatt'
  exact (ih (step_attempts hok hstep hatt')).move (h.run hv) hs hok hstep hatt'

/-- In addition to `Bystanders t`, the steps of thread `t` itself keep the members. -/
def Waiting (config : Config D) (t : Tid) (w : World D) (a : Action D) : Prop :=
  Bystanders t w a ∧
    ∀ c w' l, a = .api t c → step config w a = some (w', l) → Kept w'.clock w.impl w'.impl

/-- An attempt that has reached the reset of the client has first waited for the last worker. -/
theorem saved_of_run (h : Reachable config w l) (hentry : w.api t = .start callback .lock)
    (hrun : (machine config).RunIf (Bystanders t) w k w') (hatt : (w'.api t).commits callback) :
    ∃ u k₁ k₂, k = k₁ ++ k₂ ∧ (machine config).RunIf (Waiting config t) w k₁ u ∧
      (machine config).RunIf (Bystanders t) u k₂ w' ∧ u.api t = .start callback .save ∧
      u.impl.unmanned ∧ u.impl.activeWorkerId = none ∧ ∀ n, ¬ u.executing n := by
  have hwaiting : ∀ v a, (v.api t).prepares callback ∧ Bystanders t v a → Waiting config t v a := by
    refine fun v a hva => ⟨hva.2, fun c v' j ha hstep => ?_⟩
    subst ha
    obtain ⟨r, hnext, -, rfl, -⟩ := step_api hstep
    exact apiNext_preparing _ hnext hva.1
  obtain ⟨v, a, u, k₁, k₂, k₃, rfl, hbefore, hv, hok, hstep, hu, hafter⟩ :=
    hrun.crosses (A := fun v => (v.api t).prepares callback)
      (B := fun v => (v.api t).commits callback) (by rw [hentry]; exact id) hatt
      (fun hok hstep => step_prepares hok hstep)
      (fun hok hstep hB => (step_commits hok hstep hB).imp_right (·.1))
  have hsave : u.api t = .start callback .save :=
    ((step_commits hok hstep hu).resolve_left (not_commits_of_prepares hv)).2
  have hfirst : (machine config).RunIf (Waiting config t) w (k₁ ++ k₂) u :=
    (hbefore.mono fun _ => hwaiting _ _).tail (hwaiting v a ⟨hv, hok⟩) hstep
  have hu' := h.run hfirst.run
  have hrest := hu'.orderly.life.resting t
    (.inl (by simp [World.life, hsave, ApiPc.role, StartPc.role]))
  exact ⟨u, _, k₃, rfl, hfirst, hafter, hsave, hrest, hu'.orderly.life.idle hrest.1 hrest.2,
    hu'.orderly.life.not_executing hrest.1 hrest.2⟩

/-- A `start` whose thread cannot be created leaves the client as it was when the last worker had
ended, while readers, biases and waits go on beside it; until then its own steps keep the members.
Where no worker was left at the call, the client is as it was before the call, except that at most
a worker that had ended was joined. -/
theorem failed_start_atomic (h : Reachable config w l)
    (hcall : step config w (.call t (.start callback)) = some (w₁, l₁))
    (hrun : (machine config).RunIf (Bystanders t) w₁ k w₂)
    (hthrow : step config w₂ (.api t c) = some (w₃, l₃))
    (he : .threw t (.start callback) "thread creation failed" ∈ l₃) :
    (∃ u k₁ k₂, k = k₁ ++ k₂ ∧ (machine config).RunIf (Waiting config t) w₁ k₁ u ∧
      (machine config).RunIf (Bystanders t) u k₂ w₂ ∧ u.api t = .start callback .save ∧
      (∀ n, ¬ u.executing n) ∧ u.impl.unmanned ∧ u.impl.activeWorkerId = none ∧
      Kept w₃.clock u.impl w₃.impl ∧ w₃.impl.unmanned ∧ w₃.impl.activeWorkerId = none) ∧
    ((∀ n, ¬ w.executing n) →
      Kept w₃.clock w.impl w₃.impl ∧ w₃.impl.joining = w.impl.joining ∧
      (w₃.impl.worker = w.impl.worker ∧ w₃.impl.activeWorkerId = w.impl.activeWorkerId ∨
        w₃.impl.worker = none ∧ w₃.impl.activeWorkerId = none)) := by
  have h₁ : Reachable config w₁ (l ++ l₁) := h.step hcall
  have h₂ := h₁.run hrun.run
  obtain ⟨r, hnext, -, rfl, rfl⟩ := step_api hthrow
  obtain ⟨previous, hat, himpl⟩ := apiNext_threw hnext he
  have hcommits : (w₂.api t).commits callback := by rw [hat]; rfl
  obtain rfl : w₁ = w.enter t (.start callback) := by
    simp only [step] at hcall
    (repeat' split at hcall) <;> cases hcall
    rfl
  have hentry : (w.enter t (.start callback)).api t = .start callback .lock := by
    rw [World.enter_api, Function.update_self]
    rfl
  -- what the attempt keeps up to its last step, it keeps
  have hfails : ∀ w₀ : World D, Revocable t w₀ w₂ →
      Kept w₂.clock w₀.impl r.impl ∧ r.impl.joining = w₀.impl.joining ∧
      (r.impl.worker = w₀.impl.worker ∧ r.impl.activeWorkerId = w₀.impl.activeWorkerId ∨
        r.impl.worker = none ∧ r.impl.activeWorkerId = none) := by
    intro w₀ hrev
    have hkept : Kept w₂.clock w₀.impl w₂.impl := by simpa [hat, ApiPc.target] using hrev.kept
    have hhandled := hrev.handled
    rw [hat] at hhandled
    rw [himpl]
    exact ⟨hkept.trans .handle (Nat.le_refl _), hhandled.joining rfl,
      hhandled.handle.imp_right fun hn => ⟨hn.1, hn.2 rfl⟩⟩
  refine ⟨?_, fun hrest => hfails (w.enter t (.start callback))
    (revocable_of_run h₁ hrest (.inl hentry) hrun (.inr hcommits))⟩
  obtain ⟨u, k₁, k₂, rfl, hbefore, hafter, hsave, hfree, hidle, hnone⟩ :=
    saved_of_run h₁ hentry hrun hcommits
  obtain ⟨hkept, hjoining, hhandle⟩ := hfails u
    (revocable_of_run (h₁.run hbefore.run) hnone (.inr hsave) hafter (.inr hcommits))
  refine ⟨u, k₁, k₂, rfl, hbefore, hafter, hsave, hnone, hfree, hidle, hkept, ?_⟩
  rcases hhandle with ⟨hworker, hactive⟩ | ⟨hworker, hactive⟩
  · exact ⟨⟨hworker.trans hfree.1, hjoining.trans hfree.2⟩, hactive.trans hidle⟩
  · exact ⟨⟨hworker, hjoining.trans hfree.2⟩, hactive⟩

end

/-- A faulted client whose worker has ended. -/
def endedClient : World Rat × List (Event Rat) :=
  (machine (demoConfig .failStop)).perform (World.initial 1)
    (startActions (.client 0) ++ faultActions 0 ++ List.replicate 4 (.run 0 .go))

/-- Another thread enters `start` on `endedClient`. -/
def restarting : World Rat × List (Event Rat) :=
  (machine (demoConfig .failStop)).perform endedClient.1 [.call (.client 1) (.start (some 1))]

/-- The `start` of `restarting` has failed to create its thread and is about to throw, and a third
thread has read the health meanwhile. -/
def rollingBack : World Rat × List (Event Rat) :=
  (machine (demoConfig .failStop)).perform restarting.1
    (List.replicate 12 (.api (.client 1) .go) ++
      [.api (.client 1) (.fails "no thread"), .call (.client 2) (.query .health),
        .api (.client 2) .go] ++ List.replicate 7 (.api (.client 1) .go))

/-- The `start` of `restarting` has thrown. -/
def failedClient : World Rat × List (Event Rat) :=
  (machine (demoConfig .failStop)).perform rollingBack.1 [.api (.client 1) .go]

/-- The test that a step is one of the given thread's `start`, of a worker or of a bystander. -/
def World.bystands (t' : Tid) (w : World D) : Action D → Bool
  | .call t call => t ≠ t' && call.bystander
  | .api t _ => t = t' || (w.api t).bystander
  | _ => true

theorem bystanders_of_test {w : World D} {a : Action D} (h : w.bystands t a = true) :
    Bystanders t w a := by
  cases a with
  | call | api => simpa [Bystanders, World.bystands] using h
  | _ => trivial

theorem failed_start_atomic_failedClient :
    failedClient.1.impl.faultLatch = .socket ∧
      failedClient.1.impl.health = endedClient.1.impl.health ∧
      failedClient.1.impl.generation = endedClient.1.impl.generation := by
  have h : Reachable (demoConfig .failStop) endedClient.1 endedClient.2 :=
    ⟨1, Machine.run_perform (by decide +kernel)⟩
  have hcall : step (demoConfig .failStop) endedClient.1 (.call (.client 1) (.start (some 1))) =
      some (restarting.1, restarting.2) := step_perform (by decide +kernel)
  have hrun : (machine (demoConfig .failStop)).RunIf (Bystanders (.client 1)) restarting.1
      rollingBack.2 rollingBack.1 := Machine.runIf_perform
    (World.bystands (.client 1)) (by decide +kernel) fun _ _ => bystanders_of_test
  have hthrow : step (demoConfig .failStop) rollingBack.1 (.api (.client 1) .go) =
      some (failedClient.1, failedClient.2) := step_perform (by decide +kernel)
  have he : .threw (.client 1) (.start (some 1)) "thread creation failed" ∈ failedClient.2 := by
    decide +kernel
  have hended : ∀ n, ¬ endedClient.1.executing n := by
    intro n hn
    have hcreated : endedClient.1.created = 1 := by decide +kernel
    have hlast : n + 1 = endedClient.1.created := h.orderly.life.last_of_executing hn
    obtain rfl : n = 0 := by omega
    exact absurd hn (by unfold World.executing; decide +kernel)
  obtain ⟨hkept, -, -⟩ := (failed_start_atomic h hcall hrun hthrow he).2 hended
  exact ⟨by decide +kernel, hkept.health, hkept.generation⟩

/-- A faulted client whose worker has not yet ended. -/
def endingClient : World Rat × List (Event Rat) :=
  (machine (demoConfig .failStop)).perform (World.initial 1)
    (startActions (.client 0) ++ faultActions 0)

/-- Another thread enters `start` on `endingClient`. -/
def hastyCall : World Rat × List (Event Rat) :=
  (machine (demoConfig .failStop)).perform endingClient.1 [.call (.client 1) (.start (some 1))]

/-- The worker has ended while the `start` of `hastyCall` was on its way, and then the thread could not
be created. -/
def hastyStart : World Rat × List (Event Rat) :=
  (machine (demoConfig .failStop)).perform hastyCall.1
    (List.replicate 4 (.run 0 .go) ++ List.replicate 12 (.api (.client 1) .go) ++
      .api (.client 1) (.fails "no thread") :: List.replicate 7 (.api (.client 1) .go))

/-- The `start` of `hastyCall` has thrown. -/
def hastyThrow : World Rat × List (Event Rat) :=
  (machine (demoConfig .failStop)).perform hastyStart.1 [.api (.client 1) .go]

/-- Where a worker is still on its way out at the call, it sets the exit flag after it. -/
theorem failed_start_not_atomic :
    Reachable (demoConfig .failStop) endingClient.1 endingClient.2 ∧
    step (demoConfig .failStop) endingClient.1 (.call (.client 1) (.start (some 1))) =
      some (hastyCall.1, hastyCall.2) ∧
    (machine (demoConfig .failStop)).RunIf (Bystanders (.client 1)) hastyCall.1 hastyStart.2
      hastyStart.1 ∧
    step (demoConfig .failStop) hastyStart.1 (.api (.client 1) .go) =
      some (hastyThrow.1, hastyThrow.2) ∧
    .threw (.client 1) (.start (some 1)) "thread creation failed" ∈ hastyThrow.2 ∧
    ¬ Kept hastyThrow.1.clock endingClient.1.impl hastyThrow.1.impl := by
  refine ⟨⟨1, Machine.run_perform (by decide +kernel)⟩, step_perform (by decide +kernel),
    Machine.runIf_perform (World.bystands (.client 1)) (by decide +kernel)
      fun _ _ => bystanders_of_test, step_perform (by decide +kernel), by decide +kernel, ?_⟩
  intro hkept
  exact absurd hkept.workerExited (by decide +kernel)

end NetFT.Client
