import NetFT.Client.Contention

/-! The end of a client: a thread has called `stop` for the last time, no thread calls the client
any more but its callback, and of the threads that had called it only the joiner of its worker may
still be inside. When that `stop` has returned the worker was joined and nothing of the client is
held; what the joiner may have left are its two last notifications. -/

namespace NetFT.Client
open Detail Library

variable {D : Type}

/-- From the join of the worker to the end of `stop`. -/
def StopPc.tail : StopPc → Bool
  | .join _ | .joined _ | .joinedState _ | .clear _ | .finalNotifyLifecycle
  | .finalNotifyFirst => true
  | _ => false

/-- The last notifications of `stop`. -/
def ApiPc.notifies : ApiPc D → Bool
  | .stop .finalNotifyLifecycle | .stop .finalNotifyFirst => true
  | _ => false

/-- Outside of the client, or on the way out after the join of its worker. -/
def ApiPc.leaving : ApiPc D → Bool
  | .idle => true
  | .stop p => p.tail
  | _ => false

/-- Besides `t` and the callback no thread of the application is inside the client, but for one that
joins the worker and then leaves. -/
structure Deserted (w : World D) (t : Tid) : Prop where
  noStart : w.noStart
  leaving : ∀ m, .client m ≠ t → (w.api (.client m)).leaving = true
  single : ∀ m k, .client m ≠ t → .client k ≠ t → w.api (.client m) ≠ .idle →
    w.api (.client k) ≠ .idle → m = k

/-- The calls that are still made: by the callback, but not of `start`, and the `stop` of `t`. -/
def LastCalls (t : Tid) (l : List (Event D)) : Prop :=
  ∀ t' c, .entered t' c ∈ l →
    t' = t ∧ c = .stop ∨ (∃ n, t' = .worker n) ∧ ∀ callback, c ≠ .start callback

variable {config : Config D} {w w' : World D} {t t' : Tid} {n : Nat} {l l' : List (Event D)}

theorem LastCalls.noStartEntered (h : LastCalls t l) : NoStartEntered l := by
  intro e he
  cases e with
  | entered t' c =>
    cases c with
    | start callback =>
      rcases h t' _ he with ⟨-, hc⟩ | ⟨-, hc⟩
      · cases hc
      · exact absurd rfl (hc callback)
    | _ => rfl
  | _ => rfl

theorem held_of_notifies {p : ApiPc D} (h : p.notifies = true) : p.held = [] := by
  cases p with
  | stop q => cases q <;> first | rfl | simp [ApiPc.notifies] at h
  | _ => cases h

theorem held_of_not_running {p : RunPc D} (h : p.running = false) : p.held = [] := by
  cases p with
  | unborn | exited => rfl
  | _ => cases h

/-- On the way out a thread stays on it. -/
theorem apiNext_leaving {c : Choice D} {p : ApiPc D} {r : ApiNext D}
    (hnext : apiNext w t c p = some r) (hp : p.leaving = true) : r.pc.leaving = true := by
  cases apiNext_step hnext <;> first | rfl | cases hp

/-- `stop` returns with its event. -/
theorem stop_returns {c : Choice D} {p : StopPc} {r : ApiNext D}
    (hnext : apiNext w t c (.stop p) = some r) (hr : r.pc.isIdle = true) :
    .returned t .stop ∈ r.events := by
  cases apiNext_step hnext <;> first | exact List.mem_singleton_self _ | cases hr

theorem stop_stays {c : Choice D} {p : StopPc} {r : ApiNext D}
    (hnext : apiNext w t c (.stop p) = some r) : r.pc.isIdle = true ∨ ∃ q, r.pc = .stop q := by
  cases apiNext_step hnext <;> first | exact .inl rfl | exact .inr ⟨_, rfl⟩

/-- While `t` itself is outside. -/
theorem Deserted.of_idle (h : Deserted w t) (ht : w.api t = .idle) (t' : Tid) : Deserted w t' := by
  have hne : ∀ {m}, w.api (.client m) ≠ .idle → .client m ≠ t := fun hm hmt => hm (hmt ▸ ht)
  refine ⟨h.noStart, fun m _ => ?_, fun m k _ _ hm hk => h.single m k (hne hm) (hne hk) hm hk⟩
  by_cases hm : .client m = t
  · rw [hm, ht]
    rfl
  · exact h.leaving m hm

section
variable [DecidableEq D] [Double D]

/-- A thread that is not among the last callers does not come in. -/
theorem entered_of_move {m : Nat} (hne : .client m ≠ t) (hm : Moved config w w' l)
    (hl : LastCalls t l) (hin : w'.api (.client m) ≠ .idle) : w.api (.client m) ≠ .idle := by
  cases hm with
  | tick | spurious | run => exact hin
  | call t' c hidle hmay =>
    have hne' : .client m ≠ t' := by
      rcases hl t' c (List.mem_singleton_self _) with ⟨rfl, -⟩ | ⟨⟨n, rfl⟩, -⟩
      · exact hne
      · simp
    rw [World.enter_api, Function.update_of_ne hne'] at hin
    exact hin
  | api t' c r hnext htake =>
    by_cases hm : .client m = t'
    · rw [hm]
      exact apiNext_ne_idle hnext
    · rw [World.applyApi_api, Function.update_of_ne hm] at hin
      exact hin

theorem Deserted.move (h : Deserted w t) (hm : Moved config w w' l) (hl : LastCalls t l) :
    Deserted w' t := by
  refine ⟨noStart_move h.noStart hm hl.noStartEntered, fun m hne => ?_, fun m k hmt hkt hin hin' =>
    h.single m k hmt hkt (entered_of_move hmt hm hl hin) (entered_of_move hkt hm hl hin')⟩
  by_cases hin : w'.api (.client m) = .idle
  · rw [hin]
    rfl
  have hin' := entered_of_move hne hm hl hin
  cases hm with
  | tick | spurious | run => exact h.leaving m hne
  | call t' c hidle hmay =>
    have hne' : .client m ≠ t' := fun heq => hin' (heq ▸ hidle)
    rw [World.enter_api, Function.update_of_ne hne']
    exact h.leaving m hne
  | api t' c r hnext htake =>
    rw [World.applyApi_api]
    by_cases hm : .client m = t'
    · rw [hm, Function.update_self]
      exact apiNext_leaving hnext (hm ▸ h.leaving m hne)
    · rw [Function.update_of_ne hm]
      exact h.leaving m hne

/-- Without a worker there is none later. -/
theorem unmanned_move (hu : w.impl.unmanned) (ho : Orderly w) (hn : w.noStart)
    (hm : Moved config w w' l) : w'.impl.unmanned := by
  cases hm with
  | run m c r hnext => exact absurd (executing_of_next hnext) (ho.life.not_executing hu.1 hu.2 m)
  | api t c r hnext => exact (apiNext_calm hnext fun callback q => hn t callback q).2.2 hu
  | _ => exact hu

end

/-! ## The last call of `stop` -/

/-- `t` has called `stop`, on its own or in a destructor, or this call has returned. -/
structure Retiring (w : World D) (m : Nat) : Prop where
  deserted : Deserted w (.client m)
  returning : Returning w (.client m)
  inStop : (w.api (.client m)).isIdle = true ∨ ∃ p, w.api (.client m) = .stop p
  unmanned : (w.api (.client m)).isIdle = true → w.impl.unmanned

variable {m : Nat}

/-- The call itself. -/
theorem Retiring.enter (h : Deserted w (.client m)) : Retiring (w.enter (.client m) .stop) m where
  deserted := by
    refine ⟨noStart_update h.noStart (by simp [Call.entry]), fun k hne => ?_,
      fun j k hj hk hin hin' => ?_⟩
    · rw [World.enter_api, Function.update_of_ne hne]
      exact h.leaving k hne
    · rw [World.enter_api, Function.update_of_ne hj] at hin
      rw [World.enter_api, Function.update_of_ne hk] at hin'
      exact h.single j k hj hk hin hin'
  returning := by constructor <;> simp [Call.entry]
  inStop := .inr ⟨.lock, by simp [Call.entry]⟩
  unmanned h := by simp [Call.entry, ApiPc.isIdle] at h

section
variable [DecidableEq D] [Double D]

theorem Retiring.move (h : Retiring w m) (hv : Reachable config w l) (hm : Moved config w w' l')
    (hl : LastCalls (.client m) l') (hself : .entered (.client m) .stop ∉ l') : Retiring w' m := by
  have ho := hv.orderly
  have hn := h.deserted.noStart
  refine ⟨h.deserted.move hm hl, h.returning.move ho hn hm, ?_, fun hidle => ?_⟩
  · cases hm with
    | tick | spurious | run => exact h.inStop
    | call t c hidle hmay =>
      by_cases ht : .client m = t
      · rcases hl t c (List.mem_singleton_self _) with ⟨-, rfl⟩ | ⟨⟨n, rfl⟩, -⟩
        · exact absurd (ht ▸ List.mem_singleton_self _) hself
        · cases ht
      · rw [World.enter_api, Function.update_of_ne ht]
        exact h.inStop
    | api t c r hnext htake =>
      rw [World.applyApi_api]
      by_cases ht : .client m = t
      · subst ht
        rw [Function.update_self]
        rcases h.inStop with hidle | ⟨p, hp⟩
        · rw [isIdle_iff.mp hidle] at hnext
          cases hnext
        · rw [hp] at hnext
          exact stop_stays hnext
      · rw [Function.update_of_ne ht]
        exact h.inStop
  · by_cases hidle' : (w.api (.client m)).isIdle = true
    · exact unmanned_move (h.unmanned hidle') ho hn hm
    · refine (h.returning.returned ho (fun hactive => ?_) hm ?_).1
      · obtain ⟨n, hn⟩ := hv.active_worker _ hactive
        cases hn
      · obtain ⟨p, hp⟩ := h.inStop.resolve_left hidle'
        cases hm with
        | tick | spurious | run => exact absurd hidle hidle'
        | call t c hidle'' hmay =>
          rw [World.enter_api] at hidle
          by_cases ht : .client m = t
          · rw [ht, hidle''] at hp
            cases hp
          · rw [Function.update_of_ne ht] at hidle
            exact absurd hidle hidle'
        | api t c r hnext htake =>
          rw [World.applyApi_api] at hidle
          by_cases ht : .client m = t
          · subst ht
            rw [Function.update_self] at hidle
            rw [hp] at hnext
            exact stop_returns hnext hidle
          · rw [Function.update_of_ne ht] at hidle
            exact absurd hidle hidle'

/-- What is left of a client: no worker, which was joined if there was one; no mutex that is held;
no thread inside, except for one in the last notifications of `stop`. -/
structure Vacated (w : World D) (l : List (Event D)) : Prop where
  quiet : ∀ n, ¬ w.executing n
  joined : ∀ n < w.created, joinCount l n = 1
  unlocked : ∀ m, w.locks m = none
  left : ∀ t, w.api t = .idle ∨ (w.api t).notifies = true
  single : ∀ t t', w.api t ≠ .idle → w.api t' ≠ .idle → t = t'

theorem Retiring.vacated (h : Retiring w m) (hv : Reachable config w l)
    (hidle : w.api (.client m) = .idle) : Vacated w l := by
  have ho := hv.orderly
  have hu := h.unmanned (isIdle_iff.mpr hidle)
  have hquiet := ho.life.not_executing hu.1 hu.2
  have hworker : ∀ n, w.api (.worker n) = .idle := fun n => by
    refine ho.nested.idle (eq_false_of_ne_true fun hcallback => hquiet n ?_)
    obtain ⟨sample, outcome, hpc⟩ := inCallback_iff.mp hcallback
    rw [World.executing, hpc]
    rfl
  have hdeserted := h.deserted.of_idle hidle (.worker 0)
  have hleft : ∀ t, w.api t = .idle ∨ (w.api t).notifies = true := by
    intro t
    cases t with
    | worker n => exact .inl (hworker n)
    | client k =>
      have hleaving := hdeserted.leaving k (by simp)
      have hjoins := ho.life.no_joiner hu.2 (.client k)
      cases hpc : w.api (.client k) with
      | idle => exact .inl rfl
      | stop p =>
        simp only [World.life, hpc, ApiPc.role] at hjoins
        rw [hpc] at hleaving
        cases p <;> simp_all [ApiPc.leaving, StopPc.tail, StopPc.role, Role.joins, ApiPc.notifies]
      | _ => rw [hpc] at hleaving; cases hleaving
  have hsingle : ∀ t t', w.api t ≠ .idle → w.api t' ≠ .idle → t = t' := by
    intro t t' ht ht'
    cases t with
    | worker n => exact absurd (hworker n) ht
    | client j =>
      cases t' with
      | worker n => exact absurd (hworker n) ht'
      | client k => rw [hdeserted.single j k (by simp) (by simp) ht ht']
  refine ⟨hquiet, fun n hn => hv.joined.done n ?_, fun k => ?_, hleft, hsingle⟩
  · rintro (hle | hw | ⟨t, ht⟩)
    · exact absurd hn (Nat.not_lt.mpr hle)
    · exact absurd (hu.1.symm.trans hw) (fun h => by cases h)
    · have := ho.life.no_joiner hu.2 t
      simp [ht, Role.joins] at this
  · cases hk : w.locks k with
    | none => rfl
    | some t =>
      exfalso
      rcases (ho.locked k t).mp hk with hheld | hheld
      · rcases hleft t with ht | ht
        · rw [ht] at hheld
          cases hheld
        · rw [held_of_notifies ht] at hheld
          cases hheld
      · cases t with
        | client => cases hheld
        | worker n =>
          rw [World.workerHeld, held_of_not_running (eq_false_of_ne_true (hquiet n))] at hheld
          cases hheld

end

/-- A callback is recognised in `called_from_worker_thread`. -/
theorem isActiveWorker_of_callback (ho : Orderly w) (hcallback : w.inCallback n = true)
    (hlock : w.locks .lifecycle = none) : w.impl.isActiveWorker (.worker n) = true := by
  have hlive : w.life.phase n = .live := by
    obtain ⟨sample, outcome, hpc⟩ := inCallback_iff.mp hcallback
    simp [World.life, hpc, RunPc.phase]
  have hexited : w.impl.workerExited = false := ho.life.liveFlag n hlive
  have hactive : w.impl.activeWorkerId = some (.worker n) := by
    refine ho.life.active n hlive fun t ht => ?_
    have hheld := held_of_exclusive (w.api t) (by
      have : (w.api t).role = .activating := ht
      simp [this, Role.exclusive])
    rw [(ho.locked .lifecycle t).mpr (.inl hheld)] at hlock
    cases hlock
  simp [Impl.isActiveWorker, hexited, hactive]

end NetFT.Client
