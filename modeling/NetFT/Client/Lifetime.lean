import NetFT.Client.StopReport

/-! The part of the health record that lasts for the life of the client. No entry point changes
it: `start` resets only the rest, and a rollback puts back what `start` had found, since no
worker executes in between. Every change is made by a worker. -/

namespace NetFT.Client
open Detail Library

variable {D : Type}

/-- The record without the fields that belong to one run. -/
def lifetime (h : HealthSnapshot D) : HealthSnapshot D :=
  { h with
    state := .stopped
    faultCode := .none
    lastError := ""
    receiveRateHz := 0
    deliveryRateHz := 0 }

/-- What a `start` has saved is what the client still has. -/
def SavedLifetime (w : World D) : Prop :=
  ∀ t p, (w.api t).snapshot = some p → lifetime p.health = lifetime w.impl.health

variable {config : Config D} {w w' : World D} {t : Tid} {n k : Nat} {c : Choice D}

theorem publish_lifetime (i : Impl D) (code : FaultCode) (message : String) :
    lifetime (i.publish code message).health = lifetime i.health := by
  unfold Impl.publish
  split <;> rfl

/-- An entry point keeps the lifetime data, and what it saves of it is what it found. -/
theorem apiNext_lifetime {p : ApiPc D} {r : ApiNext D} (hnext : apiNext w t c p = some r)
    (hs : ∀ q, p.snapshot = some q → lifetime q.health = lifetime w.impl.health) :
    lifetime r.impl.health = lifetime w.impl.health ∧
      ∀ q, r.pc.snapshot = some q → lifetime q.health = lifetime w.impl.health := by
  cases apiNext_step hnext with
  | dataReset =>
    refine ⟨rfl, fun q hq => ?_⟩
    cases hq
    rfl
  | clearStopping | clearExited | notCreated | rollbackStopping | rollbackExited
  | rollbackRecord | rollbackFault | rollbackNoFault | rollbackNotifyFirst =>
    refine ⟨rfl, fun q hq => ?_⟩
    cases hq
    exact hs _ rfl
  | @rollbackData _ previous =>
    refine ⟨hs previous rfl, fun q hq => ?_⟩
    cases hq
    exact hs previous rfl
  | @rollbackPublish _ previous =>
    refine ⟨publish_lifetime .., fun q hq => ?_⟩
    cases hq
    exact hs previous rfl
  | _ => exact ⟨rfl, by simp [ApiPc.snapshot]⟩

section
variable [DecidableEq D] [Double D] {l l' : List (Event D)}

theorem SavedLifetime.move (h : SavedLifetime w) (ho : Orderly w) (hm : Moved config w w' l) :
    SavedLifetime w' := by
  intro t' p hp
  cases hm with
  | tick | spurious => exact h t' p hp
  | call t call hidle hmay =>
    rw [World.enter_api] at hp
    by_cases ht : t' = t
    · subst ht
      rw [Function.update_self] at hp
      cases call <;> cases hp
    · rw [Function.update_of_ne ht] at hp
      exact h t' p hp
  | run n c r hnext htake =>
    have hrun := executing_of_next hnext
    rw [World.applyRun_api, ho.no_snapshot hrun t'] at hp
    cases hp
  | api t c r hnext htake =>
    obtain ⟨hsame, hsaved⟩ := apiNext_lifetime hnext (h t)
    rw [World.applyApi_impl, hsame]
    rw [World.applyApi_api] at hp
    by_cases ht : t' = t
    · subst ht
      rw [Function.update_self] at hp
      exact hsaved p hp
    · rw [Function.update_of_ne ht] at hp
      exact h t' p hp

theorem Reachable.savedLifetime (h : Reachable config w l) : SavedLifetime w :=
  h.induction (I := fun v _ => SavedLifetime v) (fun _ _ _ => (fun h => by cases h))
    fun hv hi hm => hi.move hv.orderly hm

/-- Only a worker changes the lifetime data. -/
theorem lifetime_step {a : Action D} (h : Reachable config w l)
    (hstep : step config w a = some (w', l'))
    (hchanged : lifetime w'.impl.health ≠ lifetime w.impl.health) : ∃ n c, a = .run n c := by
  cases a with
  | run n c => exact ⟨n, c, rfl⟩
  | api t c =>
    obtain ⟨r, hnext, -, rfl, -⟩ := step_api hstep
    exact absurd (apiNext_lifetime hnext (h.savedLifetime t)).1 hchanged
  | call t call =>
    simp only [step] at hstep
    (repeat' split at hstep) <;> cases hstep
    exact absurd rfl hchanged
  | tick | spurious => cases hstep; exact absurd rfl hchanged

end

/-! ## While a worker executes -/

theorem Orderly.executing_unique (ho : Orderly w) (hn : w.executing n) (hk : w.executing k) :
    k = n := by
  have hlast := ho.life.last_of_executing hn
  have hlast' := ho.life.last_of_executing hk
  omega

/-- A step of an entry point leaves a worker alone, unless it creates it. -/
theorem Orderly.applyApi_worker (ho : Orderly w) (config : Config D) (t : Tid) (r : ApiNext D)
    (k : Nat) :
    (w.applyApi config t r).workers k = w.workers k ∨
      (w.workers k).pc = .unborn ∧ ((w.applyApi config t r).workers k).pc = .top := by
  by_cases hk : k = w.created
  · subst hk
    have hunborn := ho.nested.unborn w.created (Nat.le_refl _)
    cases hspawn : r.spawn <;> simp [World.applyApi, hspawn, hunborn]
  · exact .inl (applyApi_workers_ne hk)

/-- The worker that a step creates is the next one. -/
theorem created_of_spawned {r : ApiNext D} (hunborn : (w.workers k).pc = .unborn)
    (htop : ((w.applyApi config t r).workers k).pc = .top) : k = w.created := by
  by_contra hne
  rw [applyApi_workers_ne hne, hunborn] at htop
  cases htop

theorem created_le_applyApi (w : World D) (config : Config D) (t : Tid) (r : ApiNext D) :
    w.created ≤ (w.applyApi config t r).created := by
  simp only [World.applyApi]
  split <;> omega

/-- The flag is not cleared beside a worker. -/
theorem Orderly.apiNext_keeps_stopping (ho : Orderly w) {r : ApiNext D}
    (hnext : apiNext w t c (w.api t) = some r) (hn : w.executing n)
    (hstop : w.impl.stopping = true) : r.impl.stopping = true := by
  rcases (apiNext_stopping hnext).1 with hsame | htrue | hrole
  · exact hsame.trans hstop
  · exact htrue
  · have hrest := ho.life.resting t hrole
    exact absurd hn (ho.life.not_executing hrest.1 hrest.2 n)

end NetFT.Client
