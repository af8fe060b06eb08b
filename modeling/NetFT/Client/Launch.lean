import NetFT.Client.Lifetime

/-! The data of a run: the rate windows, the instant of the last delivery and the number of
malformed datagrams in a row. `start` clears them before it creates the worker, and no other thread
fills them in between (`Reachable.launch`); beside a worker the entry points leave them alone, but
for expired entries of the windows (`Orderly.apiNext_runData`). -/

namespace NetFT.Client
open Detail Library

variable {D : Type}

/-- The positions of `start` that have reset `last_delivery_at_` for the worker to be created. -/
def ApiPc.cleared : ApiPc D → Bool
  | .start _ (.dataReset _) | .start _ (.clearStopping _) | .start _ (.clearExited _)
  | .start _ (.create _) => true
  | _ => false

/-- The positions of `start` that have also reset the data under `data_mutex_`. -/
def ApiPc.launching : ApiPc D → Bool
  | .start _ (.clearStopping _) | .start _ (.clearExited _) | .start _ (.create _) => true
  | _ => false

/-- No record of the run was accounted for yet. -/
structure Impl.Fresh (i : Impl D) : Prop where
  receiveTimes : i.receiveTimes = []
  deliveryTimes : i.deliveryTimes = []
  consecutiveMalformed : i.consecutiveMalformed = 0

/-- What `start` has cleared is clear. -/
structure Launch (w : World D) : Prop where
  delivery : ∀ t, (w.api t).cleared = true → w.impl.lastDeliveryAt = 0
  fresh : ∀ t, (w.api t).launching = true → w.impl.Fresh

/-- The data of the run are the same, up to pruning of the windows at `now`. -/
structure SameRunData (now : TimePoint) (i i' : Impl D) : Prop where
  lastDeliveryAt : i'.lastDeliveryAt = i.lastDeliveryAt
  consecutiveMalformed : i'.consecutiveMalformed = i.consecutiveMalformed
  windows : i'.receiveTimes = i.receiveTimes ∧ i'.deliveryTimes = i.deliveryTimes ∨
    i'.receiveTimes = Impl.pruneRateWindow now i.receiveTimes ∧
      i'.deliveryTimes = Impl.pruneRateWindow now i.deliveryTimes

theorem SameRunData.fresh {now : TimePoint} {i i' : Impl D} (h : SameRunData now i i')
    (hi : i.Fresh) : i'.Fresh := by
  refine ⟨?_, ?_, h.consecutiveMalformed.trans hi.consecutiveMalformed⟩
  · rcases h.windows with ⟨hr, -⟩ | ⟨hr, -⟩ <;> rw [hr, hi.receiveTimes]
    rfl
  · rcases h.windows with ⟨-, hd⟩ | ⟨-, hd⟩ <;> rw [hd, hi.deliveryTimes]
    rfl

variable {config : Config D} {w w' : World D} {t t' : Tid} {n : Nat} {c : Choice D}

theorem role_of_cleared {p : ApiPc D} (h : p.cleared = true) :
    p.role = .quiet ∨ p.role = .cleared := by
  cases p with
  | start callback q => cases q <;> simp_all [ApiPc.cleared, ApiPc.role, StartPc.role]
  | _ => cases h

theorem cleared_of_launching {p : ApiPc D} (h : p.launching = true) : p.cleared = true := by
  cases p with
  | start callback q => cases q <;> first | rfl | cases h
  | _ => cases h

/-- The thread that plays an exclusive role is the only one. -/
theorem Orderly.exclusive_unique (ho : Orderly w) (ht : (w.api t).role.exclusive = true)
    (ht' : (w.api t').role.exclusive = true) : t = t' :=
  ho.locked.exclusive (held_of_exclusive _ ht) (held_of_exclusive _ ht')

theorem exclusive_of_resting {r : Role} (h : r = .quiet ∨ r = .cleared) : r.exclusive = true := by
  rcases h with rfl | rfl <;> rfl

/-- Only `start` changes the data of the run, while nobody executes. -/
theorem apiNext_runData {p : ApiPc D} {r : ApiNext D} (hnext : apiNext w t c p = some r) :
    SameRunData w.clock w.impl r.impl ∨ p.role = .quiet ∨ p.role = .cleared := by
  cases apiNext_step hnext with
  | health => exact .inl ⟨rfl, rfl, .inr ⟨rfl, rfl⟩⟩
  | save | recordReset | dataReset | clearStopping | clearExited => exact .inr (.inl rfl)
  | created | notCreated => exact .inr (.inr rfl)
  | _ =>
    first
    | exact .inl ⟨rfl, rfl, .inl ⟨rfl, rfl⟩⟩
    | exact .inr (.inl rfl)

/-- Beside a worker the entry points keep the data of its run. -/
theorem Orderly.apiNext_runData (ho : Orderly w) {r : ApiNext D}
    (hnext : apiNext w t c (w.api t) = some r) (hn : w.executing n) :
    SameRunData w.clock w.impl r.impl := by
  rcases Client.apiNext_runData hnext with hsame | hrole
  · exact hsame
  · have hrest := ho.life.resting t hrole
    exact absurd hn (ho.life.not_executing hrest.1 hrest.2 n)

/-- The step into a position of a launching `start` clears what it has to, or keeps it. -/
theorem apiNext_cleared {p : ApiPc D} {r : ApiNext D} (hnext : apiNext w t c p = some r)
    (hr : r.pc.cleared = true) :
    (r.impl.lastDeliveryAt = 0 ∨
      p.cleared = true ∧ r.impl.lastDeliveryAt = w.impl.lastDeliveryAt) ∧
    (r.pc.launching = true → r.impl.Fresh ∨
      p.launching = true ∧ SameRunData w.clock w.impl r.impl) := by
  cases apiNext_step hnext with
  | recordReset => exact ⟨.inl rfl, fun h => by cases h⟩
  | dataReset => exact ⟨.inr ⟨rfl, rfl⟩, fun _ => .inl ⟨rfl, rfl, rfl⟩⟩
  | clearStopping | clearExited =>
    exact ⟨.inr ⟨rfl, rfl⟩, fun _ => .inr ⟨rfl, rfl, rfl, .inl ⟨rfl, rfl⟩⟩⟩
  | _ => cases hr

/-- A worker is created from the last position of a launching `start`. -/
theorem apiNext_spawn {p : ApiPc D} {r : ApiNext D} (hnext : apiNext w t c p = some r)
    (hspawn : r.spawn = true) : p.launching = true ∧ SameRunData w.clock w.impl r.impl := by
  cases apiNext_step hnext with
  | created => exact ⟨rfl, rfl, rfl, .inl ⟨rfl, rfl⟩⟩
  | _ => cases hspawn

/-- Another thread keeps the data of a launching `start`. -/
theorem Orderly.runData_of_cleared (ho : Orderly w) {r : ApiNext D}
    (hnext : apiNext w t c (w.api t) = some r) (hne : t' ≠ t)
    (ht' : (w.api t').cleared = true) : SameRunData w.clock w.impl r.impl := by
  rcases Client.apiNext_runData hnext with hsame | hrole
  · exact hsame
  · exact absurd (ho.exclusive_unique (exclusive_of_resting (role_of_cleared ht'))
      (exclusive_of_resting hrole)) hne

/-- The data of the run of a worker that is created. -/
theorem Launch.created (h : Launch w) {r : ApiNext D} (hnext : apiNext w t c (w.api t) = some r)
    (hunborn : (w.workers n).pc = .unborn)
    (htop : ((w.applyApi config t r).workers n).pc = .top) :
    r.impl.Fresh ∧ r.impl.lastDeliveryAt = 0 := by
  have hspawn : r.spawn = true := by
    by_contra hspawn
    have hsame : (w.applyApi config t r).workers n = w.workers n := by simp [World.applyApi, hspawn]
    rw [hsame, hunborn] at htop
    cases htop
  obtain ⟨hlaunch, hsame⟩ := apiNext_spawn hnext hspawn
  exact ⟨hsame.fresh (h.fresh t hlaunch),
    hsame.lastDeliveryAt.trans (h.delivery t (cleared_of_launching hlaunch))⟩

section
variable [DecidableEq D] [Double D] {l l' : List (Event D)}

theorem Launch.move (h : Launch w) (ho : Orderly w) (hm : Moved config w w' l) : Launch w' := by
  cases hm with
  | tick ticks => exact ⟨h.delivery, h.fresh⟩
  | spurious t =>
    refine ⟨h.delivery, fun t' ht' => ?_⟩
    have hf := h.fresh t' ht'
    exact ⟨hf.receiveTimes, hf.deliveryTimes, hf.consecutiveMalformed⟩
  | call t call hidle hmay =>
    have hapi : ∀ t', ((w.enter t call).api t').cleared = true →
        (w.enter t call).api t' = w.api t' := by
      intro t' ht'
      rw [World.enter_api] at ht' ⊢
      by_cases ht : t' = t
      · subst ht
        rw [Function.update_self] at ht'
        cases call <;> cases ht'
      · rw [Function.update_of_ne ht]
    refine ⟨fun t' ht' => h.delivery t' (hapi t' ht' ▸ ht'), fun t' ht' => h.fresh t' ?_⟩
    exact hapi t' (cleared_of_launching ht') ▸ ht'
  | run n c r hnext htake =>
    have hrun := executing_of_next hnext
    have hnone : ∀ t', (w.api t').cleared = true → False := fun t' ht' => by
      have hrest := ho.life.resting t' (role_of_cleared ht')
      exact ho.life.not_executing hrest.1 hrest.2 n hrun
    exact ⟨fun t' ht' => (hnone t' ht').elim,
      fun t' ht' => (hnone t' (cleared_of_launching ht')).elim⟩
  | api t c r hnext htake =>
    constructor <;> intro t' ht' <;> rw [World.applyApi_api] at ht' <;> rw [World.applyApi_impl] <;>
      by_cases ht : t' = t
    · subst ht
      rw [Function.update_self] at ht'
      rcases (apiNext_cleared hnext ht').1 with hzero | ⟨hp, hsame⟩
      · exact hzero
      · exact hsame.trans (h.delivery t' hp)
    · rw [Function.update_of_ne ht] at ht'
      exact (ho.runData_of_cleared hnext ht ht').lastDeliveryAt.trans (h.delivery t' ht')
    · subst ht
      rw [Function.update_self] at ht'
      rcases (apiNext_cleared hnext (cleared_of_launching ht')).2 ht' with hfresh | ⟨hp, hsame⟩
      · exact hfresh
      · exact hsame.fresh (h.fresh t' hp)
    · rw [Function.update_of_ne ht] at ht'
      exact (ho.runData_of_cleared hnext ht (cleared_of_launching ht')).fresh (h.fresh t' ht')

theorem Reachable.launch (h : Reachable config w l) : Launch w :=
  h.induction (I := fun v _ => Launch v)
    (fun _ => ⟨(fun _ h => by cases h), fun _ h => by cases h⟩)
    fun hv hi hm => hi.move hv.orderly hm

end

end NetFT.Client
