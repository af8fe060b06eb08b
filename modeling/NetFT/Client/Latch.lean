import NetFT.Client.Commands

/-! The fault latch and the health record. The latch is an atomic outside of the data mutex, and
`start` and its rollback write the two in different sections. `Coherent` says how they are kept
together: a worker stands before its publication, and a `start` past its reset, only with the
latch open, and the record agrees with the latch except while a rollback has restored the record
of a fault and not yet the latch. -/

namespace NetFT.Client
open Detail Library

variable {D : Type}

/-- The record says that the client is faulted exactly when the latch is set, and with its
code. -/
structure Impl.coherent (i : Impl D) : Prop where
  state : i.health.state = .faulted ↔ i.faultLatch ≠ .none
  code : i.health.faultCode = i.faultLatch

/-- The record that a `start` has saved says so of the latch that it has saved. -/
structure Impl.Previous.coherent (p : Impl.Previous D) : Prop where
  state : p.health.state = .faulted ↔ p.fault ≠ .none
  code : p.health.faultCode = p.fault

/-- The positions of a worker at which the latch is open. -/
def RunPc.unlatched : RunPc D → Bool
  | .top | .session _ | .close (.session _) | .closeTransport (.session _) | .decide _
  | .enterBackoff _ | .backoffWait | .backoffBlock _ | .backoffAsleep _ | .raised _ | .publish ..
  | .finalState => true
  | _ => false

/-- The positions in the entry points at which the latch is open. -/
def ApiPc.unlatched : ApiPc D → Bool
  | .start _ (.clearStopping _) | .start _ (.clearExited _) | .start _ (.create _)
  | .start _ (.rollback .stopping _) | .start _ (.rollback .exited _)
  | .start _ (.rollback .record _) | .start _ (.rollback .data _)
  | .start _ (.rollback .latchReset _) | .start _ (.rollback .publish _)
  | .stop .idleState | .stop (.joinedState _) => true
  | _ => false

/-- The steps of the entry points that write the latch or the record of the fault. -/
def ApiPc.rewrites : ApiPc D → Bool
  | .start _ (.dataReset _) | .start _ (.rollback .data _) | .start _ (.rollback .latchReset _)
  | .start _ (.rollback .publish _) | .stop .idleState | .stop (.joinedState _) => true
  | _ => false

/-- What a `start` has saved when it has not yet saved the record. -/
def ApiPc.saving : ApiPc D → Option (Impl.Previous D)
  | .start _ (.recordReset p) | .start _ (.dataReset p) => some p
  | _ => none

/-- What a `start` past its reset has saved. -/
def ApiPc.snapshot : ApiPc D → Option (Impl.Previous D)
  | .start _ (.clearStopping p) | .start _ (.clearExited p) | .start _ (.create p)
  | .start _ (.rollback _ p) => some p
  | _ => none

/-- A rollback has restored the record of a fault, and not yet the latch. -/
def ApiPc.restoring : ApiPc D → Bool
  | .start _ (.rollback .latchReset p) => p.fault ≠ .none
  | .start _ (.rollback .publish _) => true
  | _ => false

/-- The code that a worker is about to publish. -/
def RunPc.publishes : RunPc D → Option FaultCode
  | .publish code _ => some code
  | _ => none

structure Coherent (w : World D) : Prop where
  worker : ∀ n, (w.workers n).pc.unlatched = true → w.impl.faultLatch = .none
  codes : ∀ n code, (w.workers n).pc.publishes = some code → code ≠ .none
  api : ∀ t, (w.api t).unlatched = true → w.impl.faultLatch = .none
  saving : ∀ t p, (w.api t).saving = some p → p.fault = w.impl.faultLatch
  snapshot : ∀ t p, (w.api t).snapshot = some p → p.coherent
  faulted : ∀ t p, (w.api t).restoring = true → (w.api t).snapshot = some p → p.fault ≠ .none
  restoring : ∀ t, (w.api t).restoring = true → w.impl.health.state = .faulted
  impl : (∀ t, (w.api t).restoring = false) → w.impl.coherent

variable {config : Config D} {w w' : World D} {t : Tid} {n : Nat} {c : Choice D}

/-- The latch and the record of the fault. -/
structure SameFault (i i' : Impl D) : Prop where
  latch : i'.faultLatch = i.faultLatch
  state : i'.health.state = i.health.state
  code : i'.health.faultCode = i.health.faultCode
  error : i'.health.lastError = i.health.lastError

theorem SameFault.coherent {i i' : Impl D} (h : SameFault i i') (hi : i.coherent) : i'.coherent :=
  ⟨by rw [h.latch, h.state]; exact hi.state, by rw [h.latch, h.code]; exact hi.code⟩

/-- The positions that the invariant speaks about are those of `start` and `stop` without a
worker. -/
def ApiPc.watched (p : ApiPc D) : Bool :=
  p.unlatched || p.rewrites || p.saving.isSome || p.restoring

theorem watched_held {p : ApiPc D} (h : p.watched = true) : .lifecycle ∈ p.held := by
  cases p with
  | start callback p =>
    cases p with
    | rollback => simp [ApiPc.held, StartPc.held]
    | _ => first | (simp [ApiPc.held, StartPc.held]; done) | cases h
  | stop p => cases p <;> first | (simp [ApiPc.held, StopPc.held]; done) | cases h
  | _ => cases h

/-- Nobody works while a thread stands at a watched position. -/
theorem Orderly.not_executing_of_watched (ho : Orderly w) (h : (w.api t).watched = true) (n : Nat) :
    ¬ w.executing n := by
  have hquiet : (w.api t).role = .quiet ∨ (w.api t).role = .cleared → ¬ w.executing n := fun hrole =>
    have hrest := ho.life.resting t hrole
    ho.life.not_executing hrest.1 hrest.2 n
  cases hp : w.api t with
  | start callback p =>
    rw [hp] at h hquiet
    cases p with
    | rollback p => cases p <;> exact hquiet (by simp [ApiPc.role, StartPc.role, RollbackPc.role])
    | recordReset | dataReset | clearStopping | clearExited => exact hquiet (.inl rfl)
    | create => exact hquiet (.inr rfl)
    | _ => cases h
  | stop p =>
    cases p with
    | idleState => rw [hp] at hquiet; exact hquiet (by simp [ApiPc.role, StopPc.role])
    | joinedState k =>
      exact not_executing_of_joined (t := t) (n := k) ho
        (by simp [World.life, hp, ApiPc.role, StopPc.role]) n
    | _ => rw [hp] at h; cases h
  | _ => rw [hp] at h; cases h

theorem coherent_initial (clock : TimePoint) : Coherent (World.initial clock : World D) where
  worker := by simp [World.initial]
  codes := by simp [World.initial, RunPc.publishes]
  api := by simp [World.initial]
  saving := by simp [World.initial, ApiPc.saving]
  snapshot := by simp [World.initial, ApiPc.snapshot]
  faulted := by simp [World.initial, ApiPc.restoring]
  restoring := by simp [World.initial, ApiPc.restoring]
  impl := fun _ => ⟨by simp [World.initial], rfl⟩

/-! ## The entry points -/

/-- A step of an entry point that writes neither the latch nor the record. -/
structure KeptApi (w : World D) (p : ApiPc D) (r : ApiNext D) : Prop where
  same : SameFault w.impl r.impl
  unlatched : r.pc.unlatched = true → p.unlatched = true ∨ w.impl.faultLatch = .none
  saving : ∀ q, r.pc.saving = some q →
    q.fault = w.impl.faultLatch ∨ ∃ q', p.saving = some q' ∧ q.fault = q'.fault
  snapshot : ∀ q, r.pc.snapshot = some q → p.snapshot = some q
  restoring : r.pc.restoring = false
  spawn : r.spawn = true → p.unlatched = true

/-- The thread goes on to a position that the invariant does not speak about. -/
theorem KeptApi.leaves {p : ApiPc D} {r : ApiNext D} (same : SameFault w.impl r.impl)
    (hpc : r.pc.unlatched = false ∧ r.pc.saving = none ∧ r.pc.snapshot = none ∧
      r.pc.restoring = false) (hspawn : r.spawn = false ∨ p.unlatched = true) : KeptApi w p r where
  same
  unlatched := by simp [hpc.1]
  saving := by simp [hpc.2.1]
  snapshot := by simp [hpc.2.2.1]
  restoring := hpc.2.2.2
  spawn := by rcases hspawn with h | h <;> simp [h]

/-- The thread goes on to a position of which the invariant says the same. -/
theorem KeptApi.stays {p : ApiPc D} {r : ApiNext D} (same : SameFault w.impl r.impl)
    (hpc : r.pc.unlatched = p.unlatched ∧ r.pc.saving = none ∧ r.pc.snapshot = p.snapshot ∧
      r.pc.restoring = false) (hspawn : r.spawn = false) : KeptApi w p r where
  same
  unlatched := by simp only [hpc.1]; exact .inl
  saving := by simp [hpc.2.1]
  snapshot := by simp [hpc.2.2.1]
  restoring := hpc.2.2.2
  spawn := by simp [hspawn]

/-- The thread saves what it will need to roll back. -/
theorem KeptApi.saves {p : ApiPc D} {r : ApiNext D} {q : Impl.Previous D}
    (same : SameFault w.impl r.impl) (hq : r.pc.saving = some q)
    (hfault : q.fault = w.impl.faultLatch ∨ ∃ q', p.saving = some q' ∧ q.fault = q'.fault)
    (hpc : r.pc.unlatched = false ∧ r.pc.snapshot = none ∧ r.pc.restoring = false ∧
      r.spawn = false) : KeptApi w p r where
  same
  unlatched := by simp [hpc.1]
  saving := fun q' hq' => by cases hq.symm.trans hq'; exact hfault
  snapshot := by simp [hpc.2.1]
  restoring := hpc.2.2.1
  spawn := by simp [hpc.2.2.2]

/-- The thread has just seen the latch open. -/
theorem KeptApi.open {p : ApiPc D} {r : ApiNext D} (same : SameFault w.impl r.impl)
    (hopen : ¬ w.impl.faulted = true) (hpc : r.pc.saving = none ∧ r.pc.snapshot = none ∧
      r.pc.restoring = false) (hspawn : r.spawn = false) : KeptApi w p r where
  same
  unlatched := fun _ => .inr (by simpa [Impl.faulted] using hopen)
  saving := by simp [hpc.1]
  snapshot := by simp [hpc.2.1]
  restoring := hpc.2.2
  spawn := by simp [hspawn]

theorem apiNext_kept {p : ApiPc D} {r : ApiNext D} (hnext : apiNext w t c p = some r)
    (hp : p.rewrites = false) : KeptApi w p r := by
  cases apiNext_step hnext with
  | save => exact .saves ⟨rfl, rfl, rfl, rfl⟩ rfl (.inl rfl) ⟨rfl, rfl, rfl, rfl⟩
  | @recordReset _ previous =>
    exact .saves ⟨rfl, rfl, rfl, rfl⟩ rfl (.inr ⟨previous, rfl, rfl⟩) ⟨rfl, rfl, rfl, rfl⟩
  | clearStopping | clearExited | notCreated | rollbackStopping | rollbackExited
  | rollbackRecord | rollbackNotifyFirst =>
    exact .stays ⟨rfl, rfl, rfl, rfl⟩ ⟨rfl, rfl, rfl, rfl⟩ rfl
  | created => exact .leaves ⟨rfl, rfl, rfl, rfl⟩ ⟨rfl, rfl, rfl, rfl⟩ (.inr rfl)
  | stopIdle hopen | stopJoined hopen =>
    exact .open ⟨rfl, rfl, rfl, rfl⟩ (by simp [hopen]) ⟨rfl, rfl, rfl⟩ rfl
  | dataReset | rollbackData | rollbackFault | rollbackNoFault | rollbackPublish | stopIdleState
  | stopJoinedState => cases hp
  | _ => exact .leaves ⟨rfl, rfl, rfl, rfl⟩ ⟨rfl, rfl, rfl, rfl⟩ (.inl rfl)

theorem watched_of_unlatched {p : ApiPc D} (h : p.unlatched = true) : p.watched = true := by
  simp [ApiPc.watched, h]

theorem watched_of_rewrites {p : ApiPc D} (h : p.rewrites = true) : p.watched = true := by
  simp [ApiPc.watched, h]

theorem watched_of_saving {p : ApiPc D} {q : Impl.Previous D} (h : p.saving = some q) :
    p.watched = true := by
  simp [ApiPc.watched, h]

theorem watched_of_restoring {p : ApiPc D} (h : p.restoring = true) : p.watched = true := by
  simp [ApiPc.watched, h]

/-- At most one thread is watched. -/
theorem Orderly.watched_unique {t' : Tid} (ho : Orderly w) (h : (w.api t).watched = true)
    (h' : (w.api t').watched = true) : t' = t :=
  ho.locked.exclusive (watched_held h') (watched_held h)

/-- A worker that was unlatched after a step of an entry point was so before, or was created
by it. -/
theorem unlatched_applyApi {r : ApiNext D}
    (h : ((w.applyApi config t r).workers n).pc.unlatched = true) :
    (w.workers n).pc.unlatched = true ∨ r.spawn = true := by
  by_cases hc : n = w.created
  · subst hc
    simp only [World.applyApi] at h
    split at h
    · exact .inr ‹_›
    · exact .inl h
  · rw [applyApi_workers_ne hc] at h
    exact .inl h

theorem publishes_applyApi {r : ApiNext D} {code : FaultCode}
    (h : ((w.applyApi config t r).workers n).pc.publishes = some code) :
    (w.workers n).pc.publishes = some code := by
  by_cases hc : n = w.created
  · subst hc
    simp only [World.applyApi] at h
    split at h
    · simp [RunPc.publishes] at h
    · exact h
  · rw [applyApi_workers_ne hc] at h
    exact h

theorem rewrites_of_restoring {p : ApiPc D} (h : p.restoring = true) : p.rewrites = true := by
  cases p with
  | start callback p =>
    cases p with
    | rollback p => cases p <;> first | rfl | cases h
    | _ => cases h
  | _ => cases h

theorem Coherent.kept (h : Coherent w) {r : ApiNext D} (hp : (w.api t).rewrites = false)
    (hk : KeptApi w (w.api t) r) : Coherent (w.applyApi config t r) := by
  have hpc : ∀ t', (w.applyApi config t r).api t' = if t' = t then r.pc else w.api t' :=
    fun t' => by rw [World.applyApi_api, Function.update_apply]
  have hopen : (w.api t).unlatched = true ∨ w.impl.faultLatch = .none →
      w.impl.faultLatch = .none := fun ho => ho.elim (h.api t) id
  constructor
  case worker =>
    intro k hunl
    rw [World.applyApi_impl, hk.same.latch]
    rcases unlatched_applyApi hunl with hunl | hspawn
    · exact h.worker k hunl
    · exact h.api t (hk.spawn hspawn)
  case codes => exact fun k code hcode => h.codes k code (publishes_applyApi hcode)
  case api =>
    intro t' hunl
    rw [hpc] at hunl
    rw [World.applyApi_impl, hk.same.latch]
    split at hunl
    · exact hopen (hk.unlatched hunl)
    · exact h.api t' hunl
  case saving =>
    intro t' p hp
    rw [hpc] at hp
    rw [World.applyApi_impl, hk.same.latch]
    split at hp
    · rcases hk.saving p hp with hfault | ⟨q, hq, hfault⟩
      · exact hfault
      · exact hfault.trans (h.saving t q hq)
    · exact h.saving t' p hp
  case snapshot =>
    intro t' p hp
    rw [hpc] at hp
    split at hp
    · exact h.snapshot t p (hk.snapshot p hp)
    · exact h.snapshot t' p hp
  case faulted =>
    intro t' p hr hp
    rw [hpc] at hr hp
    split at hr
    · simp [hk.restoring] at hr
    · rw [if_neg ‹_›] at hp
      exact h.faulted t' p hr hp
  case restoring =>
    intro t' hp
    rw [hpc] at hp
    rw [World.applyApi_impl, hk.same.state]
    split at hp
    · simp [hk.restoring] at hp
    · exact h.restoring t' hp
  case impl =>
    intro hnone
    refine hk.same.coherent (h.impl fun t' => ?_)
    have hat := hnone t'
    rw [hpc] at hat
    split at hat
    · subst t'
      exact eq_false_of_ne_true fun hr => by simp [rewrites_of_restoring hr] at hp
    · exact hat

/-- A step that writes the latch or the record is made by the only watched thread, while nobody
works: the invariant is then about that thread and the members alone. -/
theorem Coherent.rewritten (h : Coherent w) (ho : Orderly w) {r : ApiNext D}
    (hp : (w.api t).rewrites = true) (hspawn : r.spawn = false)
    (hopen : r.pc.unlatched = true → r.impl.faultLatch = .none)
    (hsaving : r.pc.saving = none)
    (hsnapshot : ∀ p, r.pc.snapshot = some p → p.coherent)
    (hfaulted : r.pc.restoring = true → ∀ p, r.pc.snapshot = some p → p.fault ≠ .none)
    (hrestoring : r.pc.restoring = true → r.impl.health.state = .faulted)
    (himpl : r.pc.restoring = false → r.impl.coherent) : Coherent (w.applyApi config t r) := by
  have hpc : ∀ t', (w.applyApi config t r).api t' = if t' = t then r.pc else w.api t' :=
    fun t' => by rw [World.applyApi_api, Function.update_apply]
  have hw := watched_of_rewrites hp
  have hidle : ∀ n, (w.workers n).pc.unlatched = false := fun n => by
    have hrun := ho.not_executing_of_watched hw n
    unfold World.executing at hrun
    cases hq : (w.workers n).pc <;> simp_all [RunPc.unlatched, RunPc.running]
  constructor
  case worker =>
    intro k hunl
    rcases unlatched_applyApi hunl with hunl | hsp
    · simp [hidle k] at hunl
    · simp [hspawn] at hsp
  case codes => exact fun k code hcode => h.codes k code (publishes_applyApi hcode)
  case api =>
    intro t' hunl
    rw [hpc] at hunl
    split at hunl
    · exact hopen hunl
    · exact absurd (ho.watched_unique hw (watched_of_unlatched hunl)) ‹_›
  case saving =>
    intro t' p hq
    rw [hpc] at hq
    split at hq
    · simp [hsaving] at hq
    · exact absurd (ho.watched_unique hw (watched_of_saving hq)) ‹_›
  case snapshot =>
    intro t' p hq
    rw [hpc] at hq
    split at hq
    · exact hsnapshot p hq
    · exact h.snapshot t' p hq
  case faulted =>
    intro t' p hr hq
    rw [hpc] at hr hq
    split at hr
    · rw [if_pos ‹_›] at hq
      exact hfaulted hr p hq
    · rw [if_neg ‹_›] at hq
      exact h.faulted t' p hr hq
  case restoring =>
    intro t' hq
    rw [hpc] at hq
    split at hq
    · exact hrestoring hq
    · exact absurd (ho.watched_unique hw (watched_of_restoring hq)) ‹_›
  case impl =>
    intro hnone
    have hat := hnone t
    rw [hpc, if_pos rfl] at hat
    exact himpl hat

/-- The record after a write of the state only. -/
theorem setState_coherent {i : Impl D} {state : ClientState} (hi : i.coherent)
    (hopen : i.faultLatch = .none) (hs : state ≠ .faulted) : (i.setState state).coherent where
  state := by simp [Impl.setState, hopen, hs]
  code := hi.code

theorem Coherent.dataReset (h : Coherent w) (ho : Orderly w) (hi : w.impl.coherent)
    {callback : Option Nat} {previous : Impl.Previous D}
    (hat : w.api t = .start callback (.dataReset previous)) :
    Coherent (w.applyApi config t
      { impl := w.impl.resetData
        pc := .start callback (.clearStopping (w.impl.saveData previous)) }) := by
  have hfault : previous.fault = w.impl.faultLatch := h.saving t previous (by rw [hat]; rfl)
  refine h.rewritten ho (by rw [hat]; rfl) rfl (fun _ => rfl) rfl (fun p hp => ?_)
    (by simp [ApiPc.restoring]) (by simp [ApiPc.restoring]) fun _ => ⟨?_, rfl⟩
  · obtain rfl : w.impl.saveData previous = p := Option.some.inj hp
    have hstate : (w.impl.saveData previous).fault = w.impl.faultLatch := hfault
    exact ⟨by rw [hstate]; exact hi.state, by rw [hstate]; exact hi.code⟩
  · simp [Impl.resetData]

theorem Coherent.rollback (h : Coherent w) (ho : Orderly w) {callback : Option Nat}
    {previous : Impl.Previous D} {q : RollbackPc}
    (himpl : (w.api t).restoring = false → w.impl.coherent)
    (hp : (ApiPc.start callback (.rollback q previous)).rewrites = true)
    (hat : w.api t = .start callback (.rollback q previous)) :
    Coherent (w.applyApi config t (rollbackNext w.impl t callback previous q)) := by
  have hsaved := h.snapshot t previous (by rw [hat]; rfl)
  have hopen := h.api t (by rw [hat]; cases q <;> first | rfl | cases hp)
  rw [← hat] at hp
  have hsnap : ∀ {p q}, (ApiPc.start callback (.rollback p previous)).snapshot = some q →
      q = previous := fun h => (Option.some.inj h).symm
  cases q with
  | data =>
    refine h.rewritten ho hp rfl (fun _ => hopen) rfl (fun p hp => ?_) ?_ ?_ ?_
    · rw [hsnap hp]
      exact hsaved
    · intro hr p hp
      rw [hsnap hp]
      simpa [rollbackNext, ApiPc.restoring] using hr
    · intro hr
      exact hsaved.state.mpr (by simpa [rollbackNext, ApiPc.restoring] using hr)
    · intro hr
      have hnone : previous.fault = .none := by simpa [rollbackNext, ApiPc.restoring] using hr
      have hlatch : (w.impl.restoreData previous).faultLatch = .none := hopen
      refine ⟨?_, ?_⟩
      · have hstate := hsaved.state
        simpa [rollbackNext, hopen, hnone, Impl.restoreData] using hstate
      · exact hsaved.code.trans (hnone.trans hlatch.symm)
  | latchReset =>
    have hsame : { w.impl with faultLatch := .none } = w.impl := by rw [← hopen]
    by_cases hnone : previous.fault = .none
    · simp only [rollbackNext, hsame, hnone, ne_eq, not_true_eq_false, if_false]
      refine h.rewritten ho hp rfl (fun _ => hopen) rfl (fun p hp => ?_)
        (by simp [ApiPc.restoring]) (by simp [ApiPc.restoring]) fun _ => himpl ?_
      · rw [hsnap hp]
        exact hsaved
      · rw [hat]
        simp [ApiPc.restoring, hnone]
    · have hstate := h.restoring t (by rw [hat]; simp [ApiPc.restoring, hnone])
      simp only [rollbackNext, hsame, ne_eq, hnone, not_false_eq_true, if_true]
      refine h.rewritten ho hp rfl (fun _ => hopen) rfl (fun p hp => ?_) (fun _ p hp => ?_)
        (fun _ => hstate) (by simp [ApiPc.restoring])
      · rw [hsnap hp]
        exact hsaved
      · rw [hsnap hp]
        exact hnone
  | publish =>
    have hfault : previous.fault ≠ .none := h.faulted t previous (by rw [hat]; rfl) (by rw [hat]; rfl)
    simp only [rollbackNext, Impl.publish, hopen, if_true]
    refine h.rewritten ho hp rfl (by simp [ApiPc.unlatched]) rfl (fun p hp => ?_)
      (by simp [ApiPc.restoring]) (by simp [ApiPc.restoring]) fun _ => ⟨by simp [hfault], rfl⟩
    rw [hsnap hp]
    exact hsaved
  | _ => rw [hat] at hp; cases hp

theorem Coherent.api_move (h : Coherent w) (ho : Orderly w) {r : ApiNext D}
    (hnext : apiNext w t c (w.api t) = some r) : Coherent (w.applyApi config t r) := by
  cases hp : (w.api t).rewrites with
  | false => exact h.kept hp (apiNext_kept hnext hp)
  | true =>
    have hw := watched_of_rewrites hp
    -- no other thread is restoring, so the members are coherent unless this one is
    have himpl : (w.api t).restoring = false → w.impl.coherent := fun hr => h.impl fun t' => by
      refine eq_false_of_ne_true fun hr' => ?_
      rw [ho.watched_unique hw (watched_of_restoring hr'), hr] at hr'
      cases hr'
    cases hat : w.api t with
    | start callback p =>
      rw [hat] at hp hnext
      cases p with
      | dataReset previous =>
        cases hnext
        exact h.dataReset ho (himpl (by rw [hat]; rfl)) hat
      | rollback q previous => cases hnext; exact h.rollback ho himpl hp hat
      | _ => cases hp
    | stop p =>
      rw [hat] at hp hnext
      have hi := himpl (by rw [hat]; rfl)
      have hopen := h.api t (by rw [hat]; cases p <;> first | rfl | cases hp)
      cases p with
      | idleState | joinedState =>
        cases hnext
        refine h.rewritten ho (by rw [hat]; rfl) rfl (fun _ => hopen) rfl
          (by simp [ApiPc.snapshot]) (by simp [ApiPc.restoring]) (by simp [ApiPc.restoring])
          fun _ => setState_coherent hi hopen (by simp)
      | _ => cases hp
    | _ => rw [hat] at hp; cases hp

/-! ## The worker -/

/-- The steps that write the record of the fault are made with the latch open, and publication
is the only one that sets the latch. -/
structure KeptRun (w : World D) (p : RunPc D) (r : RunNext D) : Prop where
  latch : r.impl.faultLatch = w.impl.faultLatch
  code : r.impl.health.faultCode = w.impl.health.faultCode
  record : SameFault w.impl r.impl ∨ p.unlatched = true ∧
    (r.impl.health.state = .faulted → w.impl.health.state = .faulted)
  unlatched : r.worker.pc.unlatched = true → p.unlatched = true ∨ w.impl.faultLatch = .none

theorem KeptRun.same {p : RunPc D} {r : RunNext D} (h : SameFault w.impl r.impl)
    (hpc : r.worker.pc.unlatched = p.unlatched ∨ r.worker.pc.unlatched = false ∨
      ¬ w.impl.faulted = true) : KeptRun w p r where
  latch := h.latch
  code := h.code
  record := .inl h
  unlatched := fun hr => by
    rcases hpc with hpc | hpc | hpc
    · exact .inl (hpc ▸ hr)
    · simp [hpc] at hr
    · exact .inr (by simpa [Impl.faulted] using hpc)

theorem KeptRun.writes {p : RunPc D} {r : RunNext D} (hp : p.unlatched = true)
    (hlatch : r.impl.faultLatch = w.impl.faultLatch)
    (hcode : r.impl.health.faultCode = w.impl.health.faultCode)
    (hstate : r.impl.health.state = .faulted → w.impl.health.state = .faulted) : KeptRun w p r where
  latch := hlatch
  code := hcode
  record := .inr ⟨hp, hstate⟩
  unlatched := fun _ => .inl hp

theorem recordNext_kept [Double D] {worker : Worker D} {r : RunNext D} {p : RecordPc D}
    (hnext : recordNext config w n c worker p = some r) : KeptRun w (.session (.record p)) r := by
  cases p with
  | account record receivedAt rdt ft =>
    simp only [recordNext] at hnext
    split at hnext
    · cases hnext; exact .same ⟨rfl, rfl, rfl, rfl⟩ (.inl rfl)
    · rename_i haccount
      obtain ⟨-, rfl, -⟩ := account_some haccount
      split at hnext <;> cases hnext <;>
        refine .writes rfl ?_ ?_ ?_ <;> simp only [afterRecord_impl] <;> first | rfl | (intro h; cases h)
  | callbackFailed message outcome =>
    cases hnext
    exact .writes rfl (by simp only [afterRecord_impl]; rfl) (by simp only [afterRecord_impl]; rfl)
      (by simp only [afterRecord_impl]; exact id)
  | notifyLifecycle outcome =>
    cases hnext
    exact .writes rfl (by simp only [afterRecord_impl]; rfl) (by simp only [afterRecord_impl]; rfl)
      (by simp only [afterRecord_impl]; exact id)
  | _ =>
    simp only [recordNext] at hnext
    (repeat' split at hnext) <;> cases hnext <;> exact .same ⟨rfl, rfl, rfl, rfl⟩ (.inl rfl)

section
variable [DecidableEq D] [Double D] {worker : Worker D} {r : RunNext D}

theorem sessionNext_kept {p : SessionPc D} (hnext : sessionNext config w n c worker p = some r) :
    KeptRun w (.session p) r := by
  cases p with
  | record p => exact recordNext_kept hnext
  | connecting => cases hnext; exact .writes rfl rfl rfl (fun h => by cases h)
  | apply configuration =>
    cases hnext
    refine .same ?_ (.inl rfl)
    simp only [Impl.applyConfiguration]
    split
    · split <;> exact ⟨rfl, rfl, rfl, rfl⟩
    · exact ⟨rfl, rfl, rfl, rfl⟩
  | _ =>
    simp only [sessionNext] at hnext
    (repeat' split at hnext) <;> cases hnext <;> exact .same ⟨rfl, rfl, rfl, rfl⟩ (.inl rfl)

theorem runNext_kept {p : RunPc D} (hnext : runNext config w n c worker p = some r)
    (hp : ∀ code message, p ≠ .publish code message) : KeptRun w p r := by
  cases p with
  | session p => exact sessionNext_kept hnext
  | publish code message => exact absurd rfl (hp code message)
  | enterBackoff message => cases hnext; exact .writes rfl rfl rfl (fun h => by cases h)
  | finalState => cases hnext; exact .writes rfl rfl rfl (fun h => by cases h)
  | finalFaulted =>
    cases hnext
    split
    · exact .same ⟨rfl, rfl, rfl, rfl⟩ (.inr (.inl rfl))
    · exact .same ⟨rfl, rfl, rfl, rfl⟩ (.inr (.inr ‹_›))
  | raised message =>
    cases hnext
    split
    · exact .same ⟨rfl, rfl, rfl, rfl⟩ (.inr (.inl rfl))
    · exact .same ⟨rfl, rfl, rfl, rfl⟩ (.inl rfl)
  | close context =>
    simp only [runNext] at hnext
    (repeat' split at hnext) <;> cases hnext <;> cases context <;>
      exact .same ⟨rfl, rfl, rfl, rfl⟩ (.inl rfl)
  | closeTransport context =>
    cases hnext
    cases context <;> exact .same ⟨rfl, rfl, rfl, rfl⟩ (.inl rfl)
  | top =>
    simp only [runNext] at hnext
    split at hnext <;> cases hnext
    · exact .same ⟨rfl, rfl, rfl, rfl⟩ (.inr (.inl rfl))
    · exact .same ⟨rfl, rfl, rfl, rfl⟩ (.inl rfl)
  | decide outcome =>
    simp only [runNext] at hnext
    (repeat' split at hnext) <;> cases hnext
    · exact .same ⟨rfl, rfl, rfl, rfl⟩ (.inl rfl)
    · exact .same ⟨rfl, rfl, rfl, rfl⟩ (.inr (.inl rfl))
    all_goals exact .same ⟨rfl, rfl, rfl, rfl⟩ (.inl rfl)
  | _ =>
    simp only [runNext] at hnext
    (repeat' split at hnext) <;> cases hnext <;> exact .same ⟨rfl, rfl, rfl, rfl⟩ (.inl rfl)

end

theorem running_of_unlatched {p : RunPc D} (h : p.unlatched = true) : p.running = true := by
  cases p <;> first | rfl | cases h

theorem faultFor_ne_none {result : SessionResult} (h : result ≠ .stopped) :
    faultFor result ≠ .none := by
  cases result with
  | stopped => exact absurd rfl h
  | _ => simp [faultFor]

theorem recordNext_publishes [Double D] {worker : Worker D} {r : RunNext D} {p : RecordPc D}
    (hnext : recordNext config w n c worker p = some r) : r.worker.pc.publishes = none := by
  have hafter : ∀ i outcome events,
      (afterRecord i worker n outcome events : RunNext D).worker.pc.publishes = none := by
    intro i outcome events
    cases outcome <;> rfl
  cases p <;> simp only [recordNext] at hnext <;> (repeat' split at hnext) <;> cases hnext <;>
    first | rfl | exact hafter ..

section
variable [DecidableEq D] [Double D] {worker : Worker D} {r : RunNext D}

/-- A worker publishes the fault of a session that was not stopped, or a failure to compute a
deadline. -/
theorem runNext_publishes {p : RunPc D} {code : FaultCode}
    (hnext : runNext config w n c worker p = some r)
    (hcode : r.worker.pc.publishes = some code) : code ≠ .none := by
  cases p with
  | session p =>
    cases p with
    | record p => simp [recordNext_publishes hnext] at hcode
    | _ =>
      simp only [runNext, sessionNext] at hnext
      (repeat' split at hnext) <;> cases hnext <;> cases hcode
  | decide outcome =>
    simp only [runNext] at hnext
    split at hnext
    · cases hnext
      cases hcode
      exact faultFor_ne_none (And.left ‹_›)
    · (repeat' split at hnext) <;> cases hnext <;> cases hcode
  | raised message =>
    cases hnext
    dsimp only at hcode
    split at hcode <;> cases hcode
    simp
  | closeTransport context => cases hnext; cases context <;> cases hcode
  | finalFaulted =>
    cases hnext
    dsimp only at hcode
    split at hcode <;> cases hcode
  | _ =>
    simp only [runNext] at hnext
    (repeat' split at hnext) <;> cases hnext <;> cases hcode

theorem Coherent.run_move (h : Coherent w) (ho : Orderly w)
    (hnext : runNext config w n c (w.workers n) (w.workers n).pc = some r) :
    Coherent (w.applyRun n r) := by
  have hrun := executing_of_next hnext
  have hfree : ∀ {t}, (w.api t).watched = true → False := fun hw =>
    ho.not_executing_of_watched hw n hrun
  have hi := h.impl fun t => eq_false_of_ne_true fun hr => hfree (watched_of_restoring hr)
  have hother : ∀ k, k ≠ n → (w.workers k).pc.unlatched = false := fun k hk =>
    eq_false_of_ne_true fun hunl => by
      have hlast := ho.life.last_of_executing (n := k) (running_of_unlatched hunl)
      have := ho.life.last_of_executing hrun
      omega
  have hcodes : ∀ k code, ((w.applyRun n r).workers k).pc.publishes = some code → code ≠ .none := by
    intro k code hcode
    rw [World.applyRun_workers] at hcode
    by_cases hk : k = n
    · rw [hk, Function.update_self] at hcode
      exact runNext_publishes hnext hcode
    · rw [Function.update_of_ne hk] at hcode
      exact h.codes k code hcode
  suffices hmembers : r.impl.coherent ∧
      (r.worker.pc.unlatched = true → r.impl.faultLatch = .none) by
    refine ⟨fun k hunl => ?_, hcodes, fun t hu => (hfree (watched_of_unlatched hu)).elim,
      fun t p hs => (hfree (watched_of_saving hs)).elim, h.snapshot, h.faulted,
      fun t hr => (hfree (watched_of_restoring hr)).elim, fun _ => hmembers.1⟩
    rw [World.applyRun_workers] at hunl
    by_cases hk : k = n
    · rw [hk, Function.update_self] at hunl
      exact hmembers.2 hunl
    · rw [Function.update_of_ne hk] at hunl
      simp [hother k hk] at hunl
  by_cases hpub : ∃ code message, (w.workers n).pc = .publish code message
  · obtain ⟨code, message, hpc⟩ := hpub
    have hopen := h.worker n (by rw [hpc]; rfl)
    have hcode := h.codes n code (by rw [hpc]; rfl)
    rw [hpc] at hnext
    cases hnext
    refine ⟨?_, by simp [RunPc.unlatched]⟩
    simp only [Impl.publish, hopen, if_true]
    exact ⟨by simp [hcode], rfl⟩
  · have hk := runNext_kept hnext fun code message hpc => hpub ⟨code, message, hpc⟩
    refine ⟨?_, fun hunl => ?_⟩
    · rcases hk.record with hsame | ⟨hunl, hstate⟩
      · exact hsame.coherent hi
      · have hopen := h.worker n hunl
        have hclean : w.impl.health.state ≠ .faulted := fun hf => hi.state.mp hf hopen
        refine ⟨?_, by rw [hk.code, hk.latch]; exact hi.code⟩
        rw [hk.latch, hopen]
        simpa using fun hf => hclean (hstate hf)
    · rw [hk.latch]
      exact (hk.unlatched hunl).elim (h.worker n) id

theorem Coherent.move (h : Coherent w) (ho : Orderly w) (hm : Moved config w w' l) :
    Coherent w' := by
  cases hm with
  | tick ticks =>
    exact ⟨h.worker, h.codes, h.api, h.saving, h.snapshot, h.faulted, h.restoring, h.impl⟩
  | spurious t =>
    exact ⟨h.worker, h.codes, h.api, h.saving, h.snapshot, h.faulted, h.restoring,
      fun hr => ⟨(h.impl hr).state, (h.impl hr).code⟩⟩
  | call t call hidle hmay =>
    have hentry : KeptApi w (w.api t) { impl := w.impl, pc := call.entry } := by
      refine .leaves ⟨rfl, rfl, rfl, rfl⟩ ?_ (.inl rfl)
      cases call <;> exact ⟨rfl, rfl, rfl, rfl⟩
    have h' : Coherent (w.applyApi config t { impl := w.impl, pc := call.entry }) :=
      h.kept (by rw [hidle]; rfl) hentry
    exact ⟨h'.worker, h'.codes, h'.api, h'.saving, h'.snapshot, h'.faulted, h'.restoring, h'.impl⟩
  | api t c r hnext htake => exact h.api_move ho hnext
  | run n c r hnext htake => exact h.run_move ho hnext

theorem Reachable.coherent (h : Reachable config w l) : Coherent w :=
  h.induction (I := fun v _ => Coherent v) coherent_initial fun hv hi hm => hi.move hv.orderly hm

end

end NetFT.Client
