import NetFT.Client.Step

/-! What a step of the client can do, and the mutexes: a mutex is recorded as held by a thread
exactly while the thread stands at a position that holds it (`Locked`), so that two threads
never stand at positions that hold the same mutex (`Locked.exclusive`). -/

namespace NetFT.Client
open Detail Library

variable {D : Type} {config : Config D} {w w' : World D}

/-! ## Positions of worker threads -/

theorem inCallback_iff {n : Nat} : w.inCallback n = true ↔
    ∃ sample outcome, (w.workers n).pc = .session (.record (.inCallback sample outcome)) := by
  unfold World.inCallback
  split
  · simp_all
  · rename_i h
    simp only [Bool.false_eq_true, false_iff]
    rintro ⟨sample, outcome, hpc⟩
    exact h _ _ hpc

/-- Workers that were not created yet have no position, and a worker executes an entry point
only from inside its sample callback. -/
structure Nested (w : World D) : Prop where
  unborn : ∀ n, w.created ≤ n → (w.workers n).pc = .unborn
  inCallback : ∀ n, w.api (.worker n) ≠ .idle → w.inCallback n = true

theorem Nested.idle (h : Nested w) {n : Nat} (hpc : w.inCallback n = false) :
    w.api (.worker n) = .idle := by
  by_contra hne
  simp [h.inCallback n hne] at hpc

theorem nested_initial (clock : TimePoint) : Nested (World.initial clock : World D) :=
  ⟨fun _ _ => rfl, fun _ h => (h rfl).elim⟩

/-- The mutexes a thread holds as a worker. -/
def World.workerHeld (w : World D) : Tid → List Mutex
  | .client _ => []
  | .worker n => (w.workers n).pc.held

theorem workerHeld_of_inCallback {n : Nat} (h : w.inCallback n = true) :
    w.workerHeld (.worker n) = [] := by
  obtain ⟨sample, outcome, hpc⟩ := inCallback_iff.mp h
  simp [World.workerHeld, hpc, RunPc.held, SessionPc.held, RecordPc.held]

/-- A thread that executes an entry point holds nothing as a worker. -/
theorem Nested.workerHeld (h : Nested w) {t : Tid} (hpc : w.api t ≠ .idle) :
    w.workerHeld t = [] := by
  cases t with
  | client => rfl
  | worker n => exact workerHeld_of_inCallback (h.inCallback n hpc)

/-! ## Mutexes -/

/-- A mutex is recorded as held by a thread exactly while the thread's position holds it. -/
def Locked (w : World D) : Prop :=
  ∀ m t, w.locks m = some t ↔ m ∈ (w.api t).held ∨ m ∈ w.workerHeld t

/-- Two threads never hold the same mutex. -/
theorem Locked.exclusive (h : Locked w) {m : Mutex} {t t' : Tid} (ht : m ∈ (w.api t).held)
    (ht' : m ∈ (w.api t').held) : t = t' := by
  have h₁ := (h m t).mpr (.inl ht)
  have h₂ := (h m t').mpr (.inl ht')
  exact Option.some.inj (h₁.symm.trans h₂)

theorem canTake_iff {locks : Mutex → Option Tid} {held wanted : List Mutex} :
    canTake locks held wanted = true ↔ ∀ m ∈ wanted, m ∈ held ∨ locks m = none := by
  simp [canTake, Option.isNone_iff_eq_none]

theorem relock_iff {locks : Mutex → Option Tid} {t t' : Tid} {before after wanted : List Mutex}
    {m : Mutex} (hheld : ∀ m ∈ before, locks m = some t)
    (htake : canTake locks before (wanted ++ after) = true) :
    relock locks t before after m = some t' ↔
      if t' = t then m ∈ after ∨ m ∉ before ∧ locks m = some t else locks m = some t' := by
  have hafter : m ∈ after → m ∈ before ∨ locks m = none := fun hm =>
    canTake_iff.mp htake m (List.mem_append_right _ hm)
  have hbefore := hheld m
  unfold relock
  split <;> split <;> grind

/-- A mutex that a thread holds or takes is held by nobody else. -/
theorem Locked.owner {locks : Mutex → Option Tid} {t t' : Tid} {held needs after : List Mutex}
    {m : Mutex} (hheld : ∀ m ∈ held, locks m = some t)
    (htake : canTake locks held (needs ++ after) = true) (hm : m ∈ held ∨ m ∈ needs)
    (ht' : locks m = some t') : t' = t := by
  have hown : m ∈ held → t' = t := fun hm => Option.some.inj (ht'.symm.trans (hheld m hm))
  rcases hm with hm | hm
  · exact hown hm
  · rcases canTake_iff.mp htake m (List.mem_append_left _ hm) with hm | hnone
    · exact hown hm
    · simp [hnone] at ht'

theorem Locked.owner_api (h : Locked w) {m : Mutex} {t t' : Tid} {r : ApiNext D}
    (htake : canTake w.locks (w.api t).held ((w.api t).needs ++ r.pc.held) = true)
    (hm : m ∈ (w.api t).held ∨ m ∈ (w.api t).needs) (ht' : w.locks m = some t') : t' = t :=
  owner (fun m hm => (h m t).mpr (.inl hm)) htake hm ht'

theorem Locked.owner_run (h : Locked w) {m : Mutex} {n : Nat} {t' : Tid} {r : RunNext D}
    (htake : canTake w.locks (w.workers n).pc.held
      ((w.workers n).pc.needs ++ r.worker.pc.held) = true)
    (hm : m ∈ (w.workers n).pc.held ∨ m ∈ (w.workers n).pc.needs)
    (ht' : w.locks m = some t') : t' = .worker n :=
  owner (fun m hm => (h m (.worker n)).mpr (.inr hm)) htake hm ht'

theorem locked_initial (clock : TimePoint) : Locked (World.initial clock : World D) := by
  intro m t
  cases t <;> simp [World.initial, World.workerHeld, ApiPc.held, RunPc.held]

theorem Call.entry_held (c : Call) : (c.entry : ApiPc D).held = [] := by
  cases c <;> rfl

/-! ## Steps -/

theorem apiNext_ne_idle {t : Tid} {c : Choice D} {r : ApiNext D}
    (hnext : apiNext w t c (w.api t) = some r) : w.api t ≠ .idle := by
  intro hidle
  simp [hidle, apiNext] at hnext

theorem applyApi_workers_ne {t : Tid} {r : ApiNext D} {n : Nat} (hn : n ≠ w.created) :
    (w.applyApi config t r).workers n = w.workers n := by
  simp only [World.applyApi]
  split
  · exact Function.update_of_ne hn ..
  · rfl

variable [DecidableEq D] [Double D]

/-- The effect of a step, by the kind of its action. -/
inductive Moved (config : Config D) (w : World D) : World D → List (Event D) → Prop
  | tick (ticks : Nat) : Moved config w (w.elapse ticks) []
  | call (t : Tid) (c : Call) (hidle : w.api t = .idle) (hmay : w.mayCall t = true) :
    Moved config w (w.enter t c) [.entered t c]
  | api (t : Tid) (c : Choice D) (r : ApiNext D) (hnext : apiNext w t c (w.api t) = some r)
    (htake : canTake w.locks (w.api t).held ((w.api t).needs ++ r.pc.held) = true) :
    Moved config w (w.applyApi config t r) r.events
  | run (n : Nat) (c : Choice D) (r : RunNext D)
    (hnext : runNext config w n c (w.workers n) (w.workers n).pc = some r)
    (htake : canTake w.locks (w.workers n).pc.held
      ((w.workers n).pc.needs ++ r.worker.pc.held) = true) :
    Moved config w (w.applyRun n r) r.events
  | spurious (t : Tid) : Moved config w (w.wakeSpuriously t) []

theorem step_api {t : Tid} {c : Choice D} (h : step config w (.api t c) = some (w', l)) :
    ∃ r, apiNext w t c (w.api t) = some r ∧
      canTake w.locks (w.api t).held ((w.api t).needs ++ r.pc.held) = true ∧
      w' = w.applyApi config t r ∧ l = r.events := by
  simp only [step] at h
  split at h
  · cases h
  · split at h <;> cases h
    exact ⟨_, ‹_›, ‹_›, rfl, rfl⟩

theorem step_of_apiNext {t : Tid} {c : Choice D} {r : ApiNext D}
    (hnext : apiNext w t c (w.api t) = some r)
    (htake : canTake w.locks (w.api t).held ((w.api t).needs ++ r.pc.held) = true) :
    step config w (.api t c) = some (w.applyApi config t r, r.events) := by
  simp only [step, hnext, htake, if_true]

theorem step_run {n : Nat} {c : Choice D} (h : step config w (.run n c) = some (w', l)) :
    ∃ r, runNext config w n c (w.workers n) (w.workers n).pc = some r ∧
      canTake w.locks (w.workers n).pc.held
        ((w.workers n).pc.needs ++ r.worker.pc.held) = true ∧
      w' = w.applyRun n r ∧ l = r.events := by
  simp only [step] at h
  split at h
  · cases h
  · split at h <;> cases h
    exact ⟨_, ‹_›, ‹_›, rfl, rfl⟩

/-- An enabled action, performed. -/
theorem step_perform {a : Action D} (h : ((machine config).exec w [a]).isSome) :
    step config w a =
      some (((machine config).perform w [a]).1, ((machine config).perform w [a]).2) :=
  Machine.step_perform h

theorem moved_of_step {a : Action D} (h : step config w a = some (w', l)) :
    Moved config w w' l := by
  cases a with
  | tick ticks => cases h; exact .tick ticks
  | call t c =>
    simp only [step] at h
    split at h
    · split at h
      · cases h; exact .call t c ‹_› ‹_›
      · cases h
    · cases h
  | api t c =>
    obtain ⟨r, hnext, htake, rfl, rfl⟩ := step_api h
    exact .api t c r hnext htake
  | run n c =>
    obtain ⟨r, hnext, htake, rfl, rfl⟩ := step_run h
    exact .run n c r hnext htake
  | spurious t => cases h; exact .spurious t

/-- The thread whose position in an entry point an action may change. -/
def Action.caller : Action D → Option Tid
  | .call t _ | .api t _ => some t
  | _ => none

theorem step_api_of_ne {a : Action D} {t : Tid} (h : step config w a = some (w', l))
    (ha : a.caller ≠ some t) : w'.api t = w.api t := by
  cases a with
  | tick | spurious => cases h; rfl
  | call t' c =>
    simp only [step] at h
    (repeat' split at h) <;> cases h
    exact Function.update_of_ne (by rintro rfl; exact ha rfl) ..
  | api t' c =>
    obtain ⟨r, -, -, rfl, -⟩ := step_api h
    exact Function.update_of_ne (by rintro rfl; exact ha rfl) ..
  | run n c =>
    obtain ⟨r, -, -, rfl, -⟩ := step_run h
    rfl

/-- Actions leave the position of a thread they do not mention alone. -/
theorem exec_api_of_ne {as : List (Action D)} {t : Tid}
    (h : (machine config).exec w as = some (w', l)) (ha : ∀ a ∈ as, a.caller ≠ some t) :
    w'.api t = w.api t := by
  induction as generalizing w l with
  | nil => cases h; rfl
  | cons a as ih =>
    simp only [Machine.exec] at h
    split at h
    · cases h
    rename_i hstep
    split at h
    · cases h
    rename_i hexec
    cases h
    rw [ih hexec fun b hb => ha b (List.mem_cons_of_mem _ hb)]
    exact step_api_of_ne hstep (ha a List.mem_cons_self)

theorem Reachable.run (h : Reachable config w l) (hrun : (machine config).Run w l' w') :
    Reachable config w' (l ++ l') := by
  obtain ⟨clock, h⟩ := h
  exact ⟨clock, h.trans hrun⟩

theorem Reachable.step {a : Action D} (h : Reachable config w l)
    (hstep : step config w a = some (w', l')) : Reachable config w' (l ++ l') :=
  h.run (.single hstep)

/-- An invariant of reachable states and their histories. -/
theorem Reachable.induction {I : World D → List (Event D) → Prop} (h : Reachable config w l)
    (init : ∀ clock, I (World.initial clock) [])
    (step : ∀ {v v' k k'}, Reachable config v k → I v k → Moved config v v' k' → I v' (k ++ k')) :
    I w l := by
  obtain ⟨clock, hrun⟩ := h
  exact hrun.invariant (init clock) fun hv hi hstep => step ⟨clock, hv⟩ hi (moved_of_step hstep)

/-- An invariant that does not mention the history. -/
theorem Reachable.preserved {I : World D → Prop} (h : Reachable config w l)
    (init : ∀ clock, I (World.initial clock))
    (step : ∀ {v v' k'}, I v → Moved config v v' k' → I v') : I w :=
  h.induction (I := fun v _ => I v) init fun _ hi hm => step hi hm

/-- A worker moves only while it does not execute an entry point. -/
theorem Nested.idle_of_runNext (h : Nested w) {n : Nat} {c : Choice D} {r : RunNext D}
    (hnext : runNext config w n c (w.workers n) (w.workers n).pc = some r) :
    w.api (.worker n) = .idle := by
  by_contra hne
  obtain ⟨sample, outcome, hpc⟩ := inCallback_iff.mp (h.inCallback n hne)
  simp only [hpc, runNext, sessionNext, recordNext] at hnext
  split at hnext <;> simp_all

theorem Nested.move (h : Nested w) (hm : Moved config w w' l) : Nested w' := by
  cases hm with
  | tick | spurious => exact ⟨h.unborn, h.inCallback⟩
  | call t c hidle hmay =>
    refine ⟨h.unborn, fun n hne => ?_⟩
    by_cases hn : t = .worker n
    · subst hn; exact hmay
    · rw [World.enter_api, Function.update_of_ne (Ne.symm hn)] at hne
      exact h.inCallback n hne
  | api t c r hnext htake =>
    have hunborn := h.unborn w.created (Nat.le_refl _)
    refine ⟨fun n hn => ?_, fun n hne => ?_⟩
    · have hle : w.created ≤ n ∧ (n = w.created → r.spawn = false) := by
        simp only [World.applyApi] at hn
        split at hn
        · exact ⟨by omega, by omega⟩
        · exact ⟨hn, by simp_all⟩
      by_cases hc : n = w.created
      · simp [World.applyApi, hle.2 hc, h.unborn n hle.1]
      · rw [applyApi_workers_ne hc]
        exact h.unborn n hle.1
    · have hcb : w.inCallback n = true := by
        by_cases ht : t = .worker n
        · subst ht
          exact h.inCallback n (apiNext_ne_idle hnext)
        · rw [World.applyApi_api, Function.update_of_ne (Ne.symm ht)] at hne
          exact h.inCallback n hne
      have hcreated : n ≠ w.created := by
        rintro rfl
        obtain ⟨_, _, hpc⟩ := inCallback_iff.mp hcb
        simp [hunborn] at hpc
      simpa only [World.inCallback, applyApi_workers_ne hcreated] using hcb
  | run n c r hnext htake =>
    refine ⟨fun k hk => ?_, fun k hne => ?_⟩
    · have hk' : k ≠ n := by
        rintro rfl
        simp [h.unborn k hk, runNext] at hnext
      rw [World.applyRun_workers, Function.update_of_ne hk']
      exact h.unborn k hk
    · have hk : k ≠ n := by
        rintro rfl
        exact hne (h.idle_of_runNext hnext)
      simpa only [World.inCallback, World.applyRun_workers, Function.update_of_ne hk] using
        h.inCallback k hne

theorem Locked.move (h : Locked w) (hn : Nested w) (hm : Moved config w w' l) : Locked w' := by
  cases hm with
  | tick | spurious => exact h
  | call t c hidle hmay =>
    intro m t'
    have hwh : (w.enter t c).workerHeld t' = w.workerHeld t' := by cases t' <;> rfl
    rw [hwh, World.enter_locks, h m t']
    by_cases ht : t' = t
    · subst ht
      rw [World.enter_api, Function.update_self, Call.entry_held, hidle]
      exact Iff.rfl
    · simp [Function.update_of_ne ht]
  | api t c r hnext htake =>
    have hne := apiNext_ne_idle hnext
    have hheld : ∀ m ∈ (w.api t).held, w.locks m = some t := fun m hm => (h m t).mpr (.inl hm)
    intro m t'
    have hwh : (w.applyApi config t r).workerHeld t' = w.workerHeld t' := by
      cases t' with
      | client => rfl
      | worker k =>
        simp only [World.workerHeld]
        by_cases hk : k = w.created
        · subst hk
          -- a created worker starts at `top`, where it holds as little as before
          simp only [World.applyApi]
          split <;> simp [hn.unborn w.created (Nat.le_refl _), RunPc.held]
        · rw [applyApi_workers_ne hk]
    rw [hwh, World.applyApi_locks, World.applyApi_api, relock_iff hheld htake]
    by_cases ht : t' = t
    · subst ht
      have hold := h m t'
      rw [hn.workerHeld hne] at hold ⊢
      simp only [List.not_mem_nil, or_false] at hold
      simp [hold]
    · rw [if_neg ht, Function.update_of_ne ht]
      exact h m t'
  | run n c r hnext htake =>
    have hidle := hn.idle_of_runNext hnext
    have hheld : ∀ m ∈ (w.workers n).pc.held, w.locks m = some (.worker n) := fun m hm =>
      (h m (.worker n)).mpr (.inr hm)
    intro m t'
    rw [World.applyRun_locks, World.applyRun_api, relock_iff hheld htake]
    by_cases ht : t' = .worker n
    · subst ht
      have hold := h m (.worker n)
      simp only [hidle, ApiPc.held, List.not_mem_nil, false_or, World.workerHeld] at hold
      simp [hidle, ApiPc.held, World.workerHeld, hold]
    · rw [if_neg ht, h m t']
      cases t' with
      | client => rfl
      | worker k =>
        have hk : k ≠ n := fun hk => ht (hk ▸ rfl)
        simp [World.workerHeld, Function.update_of_ne hk]

end NetFT.Client
