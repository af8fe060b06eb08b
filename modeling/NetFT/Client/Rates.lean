import NetFT.Client.Accounting
import NetFT.Client.RateLimit
import NetFT.Client.Rollback

/-! The reported rates. The rate windows are the instants of the history since the last successful
`start`, up to entries at the front that have expired; both are sorted, so that pruning at the front
leaves exactly the entries of the last second. A `start` that has reset the windows and has not yet
created its worker keeps them aside. -/

namespace NetFT.Client
open Detail Library

variable {D : Type}

/-! ## Windows -/

/-- The entries of the last second. -/
def recent (now : TimePoint) (times : List TimePoint) : List TimePoint :=
  times.filter fun instant => now - instant ≤ ticksPerSecond

theorem pruneRateWindow_append (now : TimePoint) (times times' : List TimePoint) :
    Impl.pruneRateWindow now (times ++ times') =
      if Impl.pruneRateWindow now times = [] then Impl.pruneRateWindow now times'
      else Impl.pruneRateWindow now times ++ times' := by
  induction times with
  | nil => rfl
  | cons instant times ih =>
    simp only [List.cons_append, Impl.pruneRateWindow]
    split
    · exact ih
    · rfl

/-- In a sorted window the entries of the last second are at its end. -/
theorem pruneRateWindow_sorted {now : TimePoint} {times : List TimePoint}
    (h : times.Pairwise (· ≤ ·)) : Impl.pruneRateWindow now times = recent now times := by
  induction times with
  | nil => rfl
  | cons instant times ih =>
    rw [List.pairwise_cons] at h
    simp only [Impl.pruneRateWindow, recent, List.filter_cons]
    split
    · rename_i hold
      rw [if_neg (by rw [decide_eq_true_eq]; exact Nat.not_le.mpr hold)]
      exact ih h.2
    · rename_i hnew
      have hnew : now - instant ≤ ticksPerSecond := Nat.le_of_not_lt hnew
      rw [if_pos (decide_eq_true hnew), List.filter_eq_self.mpr]
      intro later hlater
      have hle := h.1 later hlater
      exact decide_eq_true (Nat.le_trans (Nat.sub_le_sub_left hle now) hnew)

theorem Expired.push {now : TimePoint} {times times' : List TimePoint}
    (h : Expired now times times') (instant : TimePoint) :
    Expired now (times ++ [instant]) (times' ++ [instant]) where
  suffix := by
    obtain ⟨front, rfl⟩ := h.suffix
    exact ⟨front, (List.append_assoc ..).symm⟩
  live := by rw [pruneRateWindow_append, pruneRateWindow_append, h.live]

theorem Expired.prune {now now' : TimePoint} {times times' : List TimePoint}
    (h : Expired now times times') (hle : now' ≤ now) :
    Expired now times (Impl.pruneRateWindow now' times') where
  suffix := (pruneRateWindow_suffix ..).trans h.suffix
  live := (pruneRateWindow_of_le hle _).trans h.live

theorem Expired.later {now now' : TimePoint} {times times' : List TimePoint}
    (h : Expired now times times') (hle : now ≤ now') : Expired now' times times' :=
  h.trans (.refl ..) hle

/-! ## The history of a run -/

def Event.creates : Event D → Bool
  | .created _ => true
  | _ => false

/-- The events since the last successful `start`. -/
def currentRun (l : List (Event D)) : List (Event D) :=
  (l.reverse.takeWhile fun e => !e.creates).reverse

/-- When the records that were processed were received. -/
def recordTimes (l : List (Event D)) : List TimePoint := (records l).map (·.receivedAt)

/-- When the samples that were delivered were received. -/
def sampleTimes (l : List (Event D)) : List TimePoint :=
  l.filterMap fun e => e.delivery.map (·.2)

theorem currentRun_append {l l' : List (Event D)} (h : ∀ e ∈ l', e.creates = false) :
    currentRun (l ++ l') = currentRun l ++ l' := by
  have hl' : ∀ e ∈ l'.reverse, (!e.creates) = true := fun e he => by
    simp [h e (List.mem_reverse.mp he)]
  rw [currentRun, List.reverse_append, List.takeWhile_append_of_pos hl', List.reverse_append,
    List.reverse_reverse, currentRun]

theorem currentRun_created (l : List (Event D)) (n : Nat) : currentRun (l ++ [.created n]) = [] := by
  simp [currentRun, Event.creates]

theorem recordTimes_append (l l' : List (Event D)) :
    recordTimes (l ++ l') = recordTimes l ++ recordTimes l' := by
  rw [recordTimes, records_append, List.map_append, recordTimes, recordTimes]

theorem sampleTimes_append (l l' : List (Event D)) :
    sampleTimes (l ++ l') = sampleTimes l ++ sampleTimes l' := List.filterMap_append

theorem recordTimes_nil {l : List (Event D)} (h : ∀ e ∈ l, e.owner = none) : recordTimes l = [] := by
  rw [recordTimes, records_nil fun e he => record_of_owner (h e he), List.map_nil]

theorem sampleTimes_nil {l : List (Event D)} (h : ∀ e ∈ l, e.delivery = none) :
    sampleTimes l = [] := by
  rw [sampleTimes, List.filterMap_eq_nil_iff]
  intro e he
  rw [h e he]
  rfl

/-! ## What `start` keeps aside -/

/-- The data that `start` has saved and reset, and neither given up nor restored. -/
def ApiPc.parked : ApiPc D → Option (Impl.Previous D)
  | .start _ (.clearStopping p) | .start _ (.clearExited p) | .start _ (.create p)
  | .start _ (.rollback .stopping p) | .start _ (.rollback .exited p)
  | .start _ (.rollback .record p) | .start _ (.rollback .data p) => some p
  | _ => none

/-- What a step of an entry point does with the rate windows. -/
inductive WindowStep (w : World D) (p : ApiPc D) (r : ApiNext D) : Prop
  | keeps (hpc : r.pc.parked = p.parked)
    (himpl : r.impl.receiveTimes = w.impl.receiveTimes ∧
      r.impl.deliveryTimes = w.impl.deliveryTimes) (hevents : ∀ e ∈ r.events, e.creates = false)
  | prunes (hpc : r.pc.parked = p.parked)
    (himpl : r.impl.receiveTimes = Impl.pruneRateWindow w.clock w.impl.receiveTimes ∧
      r.impl.deliveryTimes = Impl.pruneRateWindow w.clock w.impl.deliveryTimes)
    (hevents : ∀ e ∈ r.events, e.creates = false)
  | parks (q : Impl.Previous D) (hrole : p.role = .quiet) (hp : p.parked = none)
    (hpc : r.pc.parked = some q)
    (hq : q.receiveTimes = w.impl.receiveTimes ∧ q.deliveryTimes = w.impl.deliveryTimes)
    (himpl : r.impl.receiveTimes = [] ∧ r.impl.deliveryTimes = [])
    (hevents : ∀ e ∈ r.events, e.creates = false)
  | restores (q : Impl.Previous D) (hp : p.parked = some q) (hpc : r.pc.parked = none)
    (himpl : r.impl.receiveTimes = q.receiveTimes ∧ r.impl.deliveryTimes = q.deliveryTimes)
    (hevents : ∀ e ∈ r.events, e.creates = false)
  | creates (q : Impl.Previous D) (hp : p.parked = some q) (hpc : r.pc.parked = none)
    (himpl : r.impl.receiveTimes = w.impl.receiveTimes ∧
      r.impl.deliveryTimes = w.impl.deliveryTimes) (hevents : ∃ n, r.events = [.created n])

variable {config : Config D} {w w' : World D} {t : Tid} {n : Nat} {c : Choice D}
  {worker : Worker D} {r : RunNext D} {l l' : List (Event D)}

theorem role_of_parked {p : ApiPc D} {q : Impl.Previous D} (h : p.parked = some q) :
    p.role = .quiet ∨ p.role = .cleared := by
  cases p with
  | start callback s =>
    cases s with
    | rollback s previous => cases s <;> simp_all [ApiPc.parked, ApiPc.role, StartPc.role, RollbackPc.role]
    | _ => simp_all [ApiPc.parked, ApiPc.role, StartPc.role]
  | _ => cases h

theorem send_creates {i : Impl D} {command : Command} {e : Option String}
    {events : List (Event D)} (h : i.send t command c = some (e, events)) :
    ∀ e ∈ events, e.creates = false := by
  unfold Impl.send at h
  split at h
  · cases h; simp
  · cases c <;> cases h <;> simp [Event.creates]

theorem apiNext_windows {p : ApiPc D} {r : ApiNext D} (hnext : apiNext w t c p = some r) :
    WindowStep w p r := by
  cases apiNext_step hnext with
  | dataReset => exact .parks _ rfl rfl rfl ⟨rfl, rfl⟩ ⟨rfl, rfl⟩ (by simp)
  | @created _ previous => exact .creates previous rfl rfl ⟨rfl, rfl⟩ ⟨_, rfl⟩
  | @rollbackData _ previous => exact .restores previous rfl rfl ⟨rfl, rfl⟩ (by simp)
  | rollbackPublish =>
    refine .keeps rfl ?_ (by simp)
    simp only [Impl.publish]
    split <;> exact ⟨rfl, rfl⟩
  | stopCommand _ hsend | biasSent hsend | biasRestarted hsend =>
    exact .keeps rfl ⟨rfl, rfl⟩ (send_creates hsend)
  | biasFailed hsend | biasRestartFailed hsend =>
    refine .keeps rfl ⟨rfl, rfl⟩ ?_
    simpa [or_imp, forall_and, Event.creates] using send_creates hsend
  | health => exact .prunes rfl ⟨rfl, rfl⟩ (by simp [Event.creates])
  | _ => exact .keeps rfl ⟨rfl, rfl⟩ (by simp [Event.creates])

/-! ## Steps of the worker -/

theorem creates_of_byRun {e : Event D} (h : e.byRun = true) : e.creates = false := by
  cases e <;> first | rfl | cases h

theorem recordNext_same_windows [Double D] {p : RecordPc D}
    (hnext : recordNext config w n c worker p = some r)
    (haccount : ∀ record receivedAt rdt ft, p ≠ .account record receivedAt rdt ft)
    (hcommit : ∀ sample outcome, p ≠ .commitData sample outcome) :
    r.impl.receiveTimes = w.impl.receiveTimes ∧ r.impl.deliveryTimes = w.impl.deliveryTimes := by
  cases p with
  | account record receivedAt rdt ft => exact absurd rfl (haccount record receivedAt rdt ft)
  | commitData sample outcome => exact absurd rfl (hcommit sample outcome)
  | _ =>
    simp only [recordNext] at hnext
    (repeat' split at hnext) <;> cases hnext <;>
      first | exact ⟨rfl, rfl⟩ | (rw [afterRecord_impl]; exact ⟨rfl, rfl⟩)

theorem applyConfiguration_windows [DecidableEq D] {i : Impl D}
    (configuration : SensorConfiguration D) :
    (i.applyConfiguration configuration).receiveTimes = i.receiveTimes ∧
      (i.applyConfiguration configuration).deliveryTimes = i.deliveryTimes := by
  unfold Impl.applyConfiguration
  split
  · split <;> exact ⟨rfl, rfl⟩
  · exact ⟨rfl, rfl⟩

section
variable [DecidableEq D] [Double D]

theorem runNext_same_windows {p : RunPc D} (hnext : runNext config w n c worker p = some r)
    (haccount : ∀ record receivedAt rdt ft,
      p ≠ .session (.record (.account record receivedAt rdt ft)))
    (hcommit : ∀ sample outcome, p ≠ .session (.record (.commitData sample outcome))) :
    r.impl.receiveTimes = w.impl.receiveTimes ∧ r.impl.deliveryTimes = w.impl.deliveryTimes := by
  cases p with
  | session q =>
    cases q with
    | record q =>
      exact recordNext_same_windows hnext (fun a b d e hq => haccount a b d e (by rw [hq]))
        fun a b hq => hcommit a b (by rw [hq])
    | apply configuration => cases hnext; exact applyConfiguration_windows configuration
    | _ =>
      simp only [runNext, sessionNext] at hnext
      (repeat' split at hnext) <;> cases hnext <;> exact ⟨rfl, rfl⟩
  | publish code message =>
    cases hnext
    simp only [Impl.publish]
    split <;> exact ⟨rfl, rfl⟩
  | _ =>
    simp only [runNext] at hnext
    (repeat' split at hnext) <;> cases hnext <;> exact ⟨rfl, rfl⟩

/-- What a step of a worker does with the rate windows. -/
theorem runNext_windows {p : RunPc D} (hnext : runNext config w n c worker p = some r) :
    recordTimes r.events = [] ∧ sampleTimes r.events = [] ∧
      r.impl.receiveTimes = w.impl.receiveTimes ∧ r.impl.deliveryTimes = w.impl.deliveryTimes ∨
    (∃ record receivedAt rdt ft, p = .session (.record (.account record receivedAt rdt ft)) ∧
      recordTimes r.events = [receivedAt] ∧ sampleTimes r.events = [] ∧
      r.impl.receiveTimes =
        Impl.pruneRateWindow receivedAt (w.impl.receiveTimes ++ [receivedAt]) ∧
      r.impl.deliveryTimes = w.impl.deliveryTimes) ∨
    ∃ sample outcome, p = .session (.record (.commitData sample outcome)) ∧
      recordTimes r.events = [] ∧ sampleTimes r.events = [sample.receivedAt] ∧
      r.impl.receiveTimes = w.impl.receiveTimes ∧
      r.impl.deliveryTimes =
        Impl.pruneRateWindow sample.receivedAt (w.impl.deliveryTimes ++ [sample.receivedAt]) := by
  by_cases hcommit : ∃ sample outcome, p = .session (.record (.commitData sample outcome))
  · obtain ⟨sample, outcome, rfl⟩ := hcommit
    cases hnext
    exact .inr (.inr ⟨sample, outcome, rfl, rfl, rfl, rfl, rfl⟩)
  have hsamples : sampleTimes r.events = [] := sampleTimes_nil fun e he => by
    have hreported := runNext_reportedAt hnext e he
    cases e with
    | delivered k sample => exact absurd ⟨sample, hreported⟩ hcommit
    | _ => rfl
  rcases runNext_tally hnext with ⟨hnone, -⟩ | ⟨x, hone, he, -⟩
  · have htimes : recordTimes r.events = [] := by rw [recordTimes, hnone]; rfl
    by_cases haccount : ∃ record receivedAt rdt ft,
        p = .session (.record (.account record receivedAt rdt ft))
    · obtain ⟨record, receivedAt, rdt, ft, rfl⟩ := haccount
      simp only [runNext, sessionNext, recordNext] at hnext
      split at hnext
      · cases hnext
        exact .inl ⟨rfl, rfl, rfl, rfl⟩
      · split at hnext <;> cases hnext
        · rw [afterRecord_records] at hnone
          cases hnone
        · cases hnone
    · exact .inl ⟨htimes, hsamples, runNext_same_windows hnext
        (fun a b d e hpc => haccount ⟨a, b, d, e, hpc⟩) fun a b hpc => hcommit ⟨a, b, hpc⟩⟩
  · obtain ⟨-, hpc, himpl, -⟩ := runNext_processed hnext he
    refine .inr (.inl ⟨_, _, _, _, hpc, ?_, hsamples, by rw [himpl]; rfl, by rw [himpl]; rfl⟩)
    rw [recordTimes, hone]
    rfl

end

/-! ## The order of the instants -/

/-- The record or sample in flight is not older than those before it. -/
def TimesOrdered (clock : TimePoint) (received delivered : List TimePoint) : RunPc D → Prop
  | .session (.valid _ receivedAt) | .session (.record (.observe _ receivedAt))
  | .session (.record (.account _ receivedAt _ _)) =>
    receivedAt ≤ clock ∧ (∀ instant ∈ received, instant ≤ receivedAt) ∧
      ∀ instant ∈ delivered, instant ≤ receivedAt
  | .session (.record (.copyCallback sample _)) | .session (.record (.inCallback sample _))
  | .session (.record (.commit sample _)) | .session (.record (.commitData sample _)) =>
    sample.receivedAt ≤ clock ∧ ∀ instant ∈ delivered, instant ≤ sample.receivedAt
  | _ => True

theorem TimesOrdered.later {clock clock' : TimePoint} {received delivered : List TimePoint}
    {p : RunPc D} (h : TimesOrdered clock received delivered p) (hle : clock ≤ clock') :
    TimesOrdered clock' received delivered p := by
  cases p with
  | session q =>
    cases q with
    | valid => exact ⟨Nat.le_trans h.1 hle, h.2⟩
    | record q =>
      cases q with
      | callbackFailed | notifyFirst | notifyLifecycle => trivial
      | _ => exact ⟨Nat.le_trans h.1 hle, h.2⟩
    | _ => trivial
  | _ => trivial

theorem inOrder_afterRecord {clock : TimePoint} {received delivered : List TimePoint} {i : Impl D}
    {outcome : Option SessionResult} {events : List (Event D)} :
    TimesOrdered clock received delivered (afterRecord i worker n outcome events).worker.pc := by
  cases outcome <;> trivial

theorem recordNext_order [Double D] {p : RecordPc D}
    {received received' delivered delivered' : List TimePoint}
    (hnext : recordNext config w n c worker p = some r)
    (hreceived : (∀ record receivedAt rdt ft, p ≠ .account record receivedAt rdt ft) →
      received' = received)
    (hdelivered : (∀ sample outcome, p ≠ .commitData sample outcome) → delivered' = delivered)
    (h : TimesOrdered w.clock received delivered (.session (.record p))) :
    TimesOrdered w.clock received' delivered' r.worker.pc := by
  cases p with
  | observe record receivedAt =>
    cases hnext
    rw [hreceived (by simp), hdelivered (by simp)]
    exact h
  | account record receivedAt rdt ft =>
    rw [hdelivered (by simp)]
    simp only [recordNext] at hnext
    split at hnext
    · cases hnext; trivial
    · split at hnext <;> cases hnext
      · exact inOrder_afterRecord
      · obtain ⟨-, rfl, -, -⟩ := dispose_deliver ‹_›
        exact ⟨h.1, h.2.2⟩
  | commitData sample outcome => cases hnext; trivial
  | _ =>
    rw [hdelivered (by simp)]
    simp only [recordNext] at hnext
    (repeat' split at hnext) <;> cases hnext <;>
      first | exact inOrder_afterRecord | exact h | trivial

section
variable [DecidableEq D] [Double D]

theorem runNext_order {p : RunPc D} {received delivered : List TimePoint}
    (hnext : runNext config w n c worker p = some r)
    (hreceived : ∀ instant ∈ received, instant ≤ w.clock)
    (hdelivered : ∀ instant ∈ delivered, instant ≤ w.clock)
    (h : TimesOrdered w.clock received delivered p) :
    TimesOrdered w.clock (received ++ recordTimes r.events) (delivered ++ sampleTimes r.events)
      r.worker.pc := by
  have hrecords : (∀ record receivedAt rdt ft,
      p ≠ .session (.record (.account record receivedAt rdt ft))) →
      received ++ recordTimes r.events = received := by
    intro hp
    rcases runNext_windows hnext with ⟨hnone, -⟩ | ⟨a, b, d, e, hpc, -⟩ | ⟨-, -, -, hnone, -⟩
    · rw [hnone, List.append_nil]
    · exact absurd hpc (hp a b d e)
    · rw [hnone, List.append_nil]
  have hsamples : (∀ sample outcome, p ≠ .session (.record (.commitData sample outcome))) →
      delivered ++ sampleTimes r.events = delivered := by
    intro hp
    rcases runNext_windows hnext with ⟨-, hnone, -⟩ | ⟨-, -, -, -, -, -, hnone, -⟩ | ⟨a, b, hpc, -⟩
    · rw [hnone, List.append_nil]
    · rw [hnone, List.append_nil]
    · exact absurd hpc (hp a b)
  cases p with
  | session q =>
    cases q with
    | record q =>
      refine recordNext_order hnext (fun hq => hrecords ?_) (fun hq => hsamples ?_) h
      · exact fun a b d e hpc => hq a b d e (by simpa using hpc)
      · exact fun a b hpc => hq a b (by simpa using hpc)
    | stamp record =>
      rw [hrecords (by simp), hsamples (by simp)]
      cases hnext
      exact ⟨Nat.le_refl _, hreceived, hdelivered⟩
    | valid record receivedAt =>
      rw [hrecords (by simp), hsamples (by simp)]
      simp only [runNext, sessionNext] at hnext
      split at hnext <;> cases hnext
      · trivial
      · exact h
    | pollCheck =>
      cases hnext
      dsimp only
      split <;> trivial
    | _ =>
      simp only [runNext, sessionNext] at hnext
      (repeat' split at hnext) <;> cases hnext <;> trivial
  | closeTransport context => cases hnext; cases context <;> trivial
  | raised message | finalFaulted =>
    cases hnext
    dsimp only
    split <;> trivial
  | _ =>
    simp only [runNext] at hnext
    (repeat' split at hnext) <;> cases hnext <;> trivial

end

/-! ## Runs -/

/-- A sorted list of instants that have passed. -/
def Past (clock : TimePoint) (times : List TimePoint) : Prop :=
  times.Pairwise (· ≤ ·) ∧ ∀ instant ∈ times, instant ≤ clock

theorem Past.later {clock clock' : TimePoint} {times : List TimePoint} (h : Past clock times)
    (hle : clock ≤ clock') : Past clock' times :=
  ⟨h.1, fun instant hmem => Nat.le_trans (h.2 instant hmem) hle⟩

theorem Past.concat {clock instant : TimePoint} {times : List TimePoint} (h : Past clock times)
    (hle : instant ≤ clock) (hlast : ∀ earlier ∈ times, earlier ≤ instant) :
    Past clock (times ++ [instant]) := by
  refine ⟨List.pairwise_append.mpr ⟨h.1, List.pairwise_singleton .., ?_⟩, fun x hx => ?_⟩
  · intro earlier hearlier x hx
    rw [List.mem_singleton.mp hx]
    exact hlast earlier hearlier
  · rcases List.mem_append.mp hx with hx | hx
    · exact h.2 x hx
    · rw [List.mem_singleton.mp hx]; exact hle

/-- The two windows are the instants of the current run, without some that have expired. -/
structure Mirrors (clock : TimePoint) (l : List (Event D)) (receiveTimes deliveryTimes : List TimePoint) :
    Prop where
  received : Expired clock (recordTimes (currentRun l)) receiveTimes
  delivered : Expired clock (sampleTimes (currentRun l)) deliveryTimes

structure Windows (w : World D) (l : List (Event D)) : Prop where
  received : Past w.clock (recordTimes (currentRun l))
  delivered : Past w.clock (sampleTimes (currentRun l))
  order : ∀ n, w.executing n → TimesOrdered w.clock (recordTimes (currentRun l))
    (sampleTimes (currentRun l)) (w.workers n).pc
  windows : (∀ t, (w.api t).parked = none) →
    Mirrors w.clock l w.impl.receiveTimes w.impl.deliveryTimes
  parked : ∀ t p, (w.api t).parked = some p → Mirrors w.clock l p.receiveTimes p.deliveryTimes ∧
    w.impl.receiveTimes = [] ∧ w.impl.deliveryTimes = []

theorem Mirrors.later {clock clock' : TimePoint} {receiveTimes deliveryTimes : List TimePoint}
    (h : Mirrors clock l receiveTimes deliveryTimes) (hle : clock ≤ clock') :
    Mirrors clock' l receiveTimes deliveryTimes :=
  ⟨h.received.later hle, h.delivered.later hle⟩

/-- Events that say nothing about the windows. -/
structure Silent (l : List (Event D)) : Prop where
  creates : ∀ e ∈ l, e.creates = false
  owner : ∀ e ∈ l, e.owner = none

theorem Silent.times (h : Silent l') (l : List (Event D)) :
    recordTimes (currentRun (l ++ l')) = recordTimes (currentRun l) ∧
      sampleTimes (currentRun (l ++ l')) = sampleTimes (currentRun l) := by
  rw [currentRun_append h.creates, recordTimes_append, recordTimes_nil h.owner, sampleTimes_append,
    sampleTimes_nil fun e he => delivery_of_owner (h.owner e he)]
  exact ⟨List.append_nil _, List.append_nil _⟩

theorem Silent.mirrors {clock : TimePoint} {receiveTimes deliveryTimes : List TimePoint}
    (h : Silent l') (hm : Mirrors clock l receiveTimes deliveryTimes) :
    Mirrors clock (l ++ l') receiveTimes deliveryTimes := by
  obtain ⟨hr, hd⟩ := h.times l
  exact ⟨hr ▸ hm.received, hd ▸ hm.delivered⟩

theorem Orderly.not_parked (ho : Orderly w) (hn : w.executing n) (t : Tid) :
    (w.api t).parked = none := by
  by_contra hne
  obtain ⟨p, hp⟩ := Option.ne_none_iff_exists'.mp hne
  have hrest := ho.life.resting t (role_of_parked hp)
  exact ho.life.not_executing hrest.1 hrest.2 n hn

theorem Orderly.parked_unique (ho : Orderly w) {t' : Tid} {p : Impl.Previous D}
    (ht : (w.api t').parked = some p) (hrole : (w.api t).role.exclusive = true) : t' = t :=
  ho.exclusive_unique (exclusive_of_resting (role_of_parked ht)) hrole

/-- A step of an entry point that reports nothing about the windows, in the parts that do not
depend on what it does with them. -/
theorem Windows.api (h : Windows w l) (ho : Orderly w) {r : ApiNext D} (hl' : Silent r.events)
    (hwindows : (∀ t', ((w.applyApi config t r).api t').parked = none) →
      Mirrors w.clock l r.impl.receiveTimes r.impl.deliveryTimes)
    (hparked : ∀ t' p, ((w.applyApi config t r).api t').parked = some p →
      Mirrors w.clock l p.receiveTimes p.deliveryTimes ∧
        r.impl.receiveTimes = [] ∧ r.impl.deliveryTimes = []) :
    Windows (w.applyApi config t r) (l ++ r.events) := by
  obtain ⟨hr, hd⟩ := hl'.times l
  refine ⟨by rw [hr]; exact h.received, by rw [hd]; exact h.delivered, fun n hexec => ?_,
    fun hnone => hl'.mirrors (hwindows hnone), fun t' p hp => ?_⟩
  · rw [hr, hd]
    rcases ho.applyApi_worker config t r n with hworker | ⟨-, htop⟩
    · rw [World.executing, hworker] at hexec
      rw [hworker]
      exact h.order n hexec
    · rw [htop]
      trivial
  · obtain ⟨hm, hempty⟩ := hparked t' p hp
    exact ⟨hl'.mirrors hm, hempty⟩

theorem Windows.move_api (h : Windows w l) (ho : Orderly w) {r : ApiNext D}
    (hnext : apiNext w t c (w.api t) = some r) :
    Windows (w.applyApi config t r) (l ++ r.events) := by
  have howner : ∀ e ∈ r.events, e.owner = none := fun e he =>
    owner_of_byApi (apiNext_events hnext e he)
  -- who is parked after the step
  have hother : ∀ t', t' ≠ t → (w.applyApi config t r).api t' = w.api t' := fun t' ht' =>
    Function.update_of_ne ht' ..
  have hself : (w.applyApi config t r).api t = r.pc := Function.update_self ..
  have hsame : r.pc.parked = (w.api t).parked →
      ∀ t', ((w.applyApi config t r).api t').parked = (w.api t').parked := by
    intro hpc t'
    by_cases ht' : t' = t
    · rw [ht', hself, hpc]
    · rw [hother t' ht']
  rcases apiNext_windows hnext with ⟨hpc, himpl, hevents⟩ | ⟨hpc, himpl, hevents⟩ |
    ⟨q, hrole, hp, hpc, hq, himpl, hevents⟩ | ⟨q, hp, hpc, himpl, hevents⟩ |
    ⟨q, hp, hpc, himpl, k, hevents⟩
  · refine h.api ho ⟨hevents, howner⟩ (fun hnone => ?_) fun t' p hp => ?_
    · rw [himpl.1, himpl.2]
      exact h.windows fun t' => (hsame hpc t').symm.trans (hnone t')
    · rw [himpl.1, himpl.2]
      exact h.parked t' p ((hsame hpc t').symm.trans hp)
  · refine h.api ho ⟨hevents, howner⟩ (fun hnone => ?_) fun t' p hp => ?_
    · have hm := h.windows fun t' => (hsame hpc t').symm.trans (hnone t')
      rw [himpl.1, himpl.2]
      exact ⟨hm.received.prune (Nat.le_refl _), hm.delivered.prune (Nat.le_refl _)⟩
    · obtain ⟨hm, hreceive, hdelivery⟩ := h.parked t' p ((hsame hpc t').symm.trans hp)
      rw [himpl.1, himpl.2, hreceive, hdelivery]
      exact ⟨hm, rfl, rfl⟩
  · have hnone : ∀ t', (w.api t').parked = none := by
      intro t'
      by_contra hne
      obtain ⟨p, hp'⟩ := Option.ne_none_iff_exists'.mp hne
      cases ho.parked_unique hp' (exclusive_of_resting (.inl hrole))
      exact hne hp
    refine h.api ho ⟨hevents, howner⟩ (fun hnone' => ?_) fun t' p hp' => ?_
    · exact absurd (hnone' t) (by rw [hself, hpc]; simp)
    · by_cases ht' : t' = t
      · rw [ht', hself, hpc] at hp'
        cases hp'
        rw [hq.1, hq.2]
        exact ⟨h.windows hnone, himpl⟩
      · rw [hother t' ht', hnone t'] at hp'
        cases hp'
  · have hexclusive := exclusive_of_resting (role_of_parked hp)
    obtain ⟨hm, -⟩ := h.parked t q hp
    refine h.api ho ⟨hevents, howner⟩ (fun _ => himpl.1 ▸ himpl.2 ▸ hm) fun t' p hp' => ?_
    by_cases ht' : t' = t
    · rw [ht', hself, hpc] at hp'
      cases hp'
    · rw [hother t' ht'] at hp'
      exact absurd (ho.parked_unique hp' hexclusive) ht'
  · have hexclusive := exclusive_of_resting (role_of_parked hp)
    obtain ⟨-, hreceive, hdelivery⟩ := h.parked t q hp
    have hrun : currentRun (l ++ r.events) = [] := hevents ▸ currentRun_created l k
    refine ⟨by rw [hrun]; exact ⟨.nil, fun _ h => by cases h⟩,
      by rw [hrun]; exact ⟨.nil, fun _ h => by cases h⟩, fun n hexec => ?_, fun _ => ?_,
      fun t' p hp' => ?_⟩
    · rcases ho.applyApi_worker config t r n with hworker | ⟨-, htop⟩
      · rw [World.executing, hworker] at hexec
        rw [ho.not_parked hexec t] at hp
        cases hp
      · rw [htop]
        trivial
    · rw [World.applyApi_impl, himpl.1, himpl.2, hreceive, hdelivery]
      exact ⟨by rw [hrun]; exact .refl .., by rw [hrun]; exact .refl ..⟩
    · by_cases ht' : t' = t
      · rw [ht', hself, hpc] at hp'
        cases hp'
      · rw [hother t' ht'] at hp'
        exact absurd (ho.parked_unique hp' hexclusive) ht'

section
variable [DecidableEq D] [Double D]

theorem Windows.move_run (h : Windows w l) (ho : Orderly w)
    (hnext : runNext config w n c (w.workers n) (w.workers n).pc = some r) :
    Windows (w.applyRun n r) (l ++ r.events) := by
  have hexec := executing_of_next hnext
  have hnone := ho.not_parked hexec
  have hrun : currentRun (l ++ r.events) = currentRun l ++ r.events :=
    currentRun_append fun e he => creates_of_byRun (runNext_events hnext e he)
  have horder := h.order n hexec
  have hm := h.windows hnone
  have hnext' := runNext_order hnext h.received.2 h.delivered.2 horder
  have hparked : ∀ t p, ((w.applyRun n r).api t).parked = some p →
      Mirrors w.clock (l ++ r.events) p.receiveTimes p.deliveryTimes ∧
        r.impl.receiveTimes = [] ∧ r.impl.deliveryTimes = [] := fun t p hp => by
    rw [World.applyRun_api, hnone t] at hp
    cases hp
  have hworkers : ∀ k, (w.applyRun n r).executing k →
      TimesOrdered w.clock (recordTimes (currentRun (l ++ r.events)))
        (sampleTimes (currentRun (l ++ r.events))) ((w.applyRun n r).workers k).pc := by
    intro k hk
    rw [World.executing, World.applyRun_workers] at hk
    by_cases hkn : k = n
    · rw [hkn, World.applyRun_workers, Function.update_self, hrun, recordTimes_append,
        sampleTimes_append]
      exact hnext'
    · rw [Function.update_of_ne hkn] at hk
      exact absurd (ho.executing_unique hexec hk) hkn
  suffices hpast : Past w.clock (recordTimes (currentRun (l ++ r.events))) ∧
      Past w.clock (sampleTimes (currentRun (l ++ r.events))) ∧
      Mirrors w.clock (l ++ r.events) r.impl.receiveTimes r.impl.deliveryTimes from
    ⟨hpast.1, hpast.2.1, hworkers, fun _ => hpast.2.2, hparked⟩
  have hR : recordTimes (currentRun (l ++ r.events)) =
      recordTimes (currentRun l) ++ recordTimes r.events := by rw [hrun, recordTimes_append]
  have hD : sampleTimes (currentRun (l ++ r.events)) =
      sampleTimes (currentRun l) ++ sampleTimes r.events := by rw [hrun, sampleTimes_append]
  rcases runNext_windows hnext with ⟨hr, hd, himpl⟩ |
    ⟨record, receivedAt, rdt, ft, hpc, hr, hd, himpl⟩ | ⟨sample, outcome, hpc, hr, hd, himpl⟩
  · rw [hR, hD, hr, hd, List.append_nil, List.append_nil]
    refine ⟨h.received, h.delivered, ?_, ?_⟩
    · rw [hR, hr, List.append_nil, himpl.1]; exact hm.received
    · rw [hD, hd, List.append_nil, himpl.2]; exact hm.delivered
  · rw [hpc] at horder
    rw [hR, hD, hr, hd, List.append_nil]
    refine ⟨h.received.concat horder.1 horder.2.1, h.delivered, ?_, ?_⟩
    · rw [hR, hr, himpl.1]; exact (hm.received.push receivedAt).prune horder.1
    · rw [hD, hd, List.append_nil, himpl.2]; exact hm.delivered
  · rw [hpc] at horder
    rw [hR, hD, hr, hd, List.append_nil]
    refine ⟨h.received, h.delivered.concat horder.1 horder.2, ?_, ?_⟩
    · rw [hR, hr, List.append_nil, himpl.1]; exact hm.received
    · rw [hD, hd, himpl.2]; exact (hm.delivered.push sample.receivedAt).prune horder.1

theorem Reachable.windows (h : Reachable config w l) : Windows w l := by
  refine h.induction (I := fun v k => Windows v k) (fun clock => ?_) ?_
  · refine ⟨⟨.nil, ?_⟩, ⟨.nil, ?_⟩, ?_, fun _ => ⟨.refl .., .refl ..⟩, ?_⟩ <;> intros <;>
      contradiction
  · intro v v' k k' hv hi hm
    cases hm with
    | tick ticks =>
      have hle : v.clock ≤ v.clock + ticks := Nat.le_add_right ..
      rw [List.append_nil]
      exact ⟨hi.received.later hle, hi.delivered.later hle, fun n hn => (hi.order n hn).later hle,
        fun hnone => (hi.windows hnone).later hle,
        fun t p hp => ⟨(hi.parked t p hp).1.later hle, (hi.parked t p hp).2⟩⟩
    | spurious t => rw [List.append_nil]; exact ⟨hi.1, hi.2, hi.3, hi.4, hi.5⟩
    | call t call hidle hmay =>
      have hsilent : Silent [Event.entered (D := D) t call] :=
        ⟨by simp [Event.creates], by simp [Event.owner]⟩
      obtain ⟨hr, hd⟩ := hsilent.times k
      have hparked : ∀ t', ((v.enter t call).api t').parked = (v.api t').parked := by
        intro t'
        rw [World.enter_api]
        by_cases ht' : t' = t
        · subst ht'
          rw [Function.update_self, hidle]
          cases call <;> rfl
        · rw [Function.update_of_ne ht']
      refine ⟨by rw [hr]; exact hi.received, by rw [hd]; exact hi.delivered, fun n hn => ?_,
        fun hnone => hsilent.mirrors (hi.windows fun t' => (hparked t').symm.trans (hnone t')),
        fun t' p hp => ?_⟩
      · rw [hr, hd]
        exact hi.order n hn
      · obtain ⟨hm, hempty⟩ := hi.parked t' p ((hparked t').symm.trans hp)
        exact ⟨hsilent.mirrors hm, hempty⟩
    | api t c r hnext htake => exact hi.move_api hv.orderly hnext
    | run n c r hnext htake => exact hi.move_run hv.orderly hnext

/-- In every run, a `health()` that is taken while no `start` has reset the client and not yet
created its worker returns as rates the numbers of records processed, and of samples delivered,
since the last successful `start` that were received within the last second; while one has, both
rates are zero. -/
theorem rates_count_last_second {a : Action D} {snapshot : HealthSnapshot D}
    (h : Reachable config w l) (hstep : step config w a = some (w', l'))
    (he : .healthRead t snapshot ∈ l') :
    ((∀ t', (w.api t').parked = none) →
      snapshot.receiveRateHz = (recent w.clock (recordTimes (currentRun l))).length ∧
      snapshot.deliveryRateHz = (recent w.clock (sampleTimes (currentRun l))).length) ∧
    ((∃ t', (w.api t').parked ≠ none) →
      snapshot.receiveRateHz = 0 ∧ snapshot.deliveryRateHz = 0) := by
  have hwindows := h.windows
  obtain ⟨t', c, q, rfl, hq, he⟩ := step_reads hstep he rfl
  cases q with
  | health =>
    obtain ⟨rfl, rfl⟩ : t = t' ∧ snapshot = (w.impl.takeHealth w.clock).2 := by
      simpa [queryNext] using he
    refine ⟨fun hnone => ?_, fun hparked => ?_⟩
    · have hm := hwindows.windows hnone
      rw [← pruneRateWindow_sorted hwindows.received.1, ← pruneRateWindow_sorted
        hwindows.delivered.1, ← hm.received.live, ← hm.delivered.live]
      exact ⟨rfl, rfl⟩
    · obtain ⟨t', ht'⟩ := hparked
      obtain ⟨p, hp⟩ := Option.ne_none_iff_exists'.mp ht'
      obtain ⟨-, hreceive, hdelivery⟩ := hwindows.parked t' p hp
      simp [Impl.takeHealth, hreceive, hdelivery, Impl.pruneRateWindow]
  | _ => simp [queryNext] at he

end

/-! ### A start that fails -/

/-- Worker `0` delivers a record, loses its socket and ends; `start` on another thread has reset
the client. -/
def ratedActions : List (Action Rat) :=
  startActions (.client 0) ++ openActions 0 ++ receiveActions 0 (plainRecord 1 1) ++
    List.replicate 3 (.run 0 .go) ++ [.run 0 (.fails "poll"), .run 0 .go, .run 0 .succeeds] ++
    List.replicate 11 (.run 0 .go) ++
    .call (.client 1) (.start (some 1)) :: List.replicate 12 (.api (.client 1) .go)

/-- A third thread is about to take the health during the attempt of `ratedActions`. -/
def parkedClient : World Rat × List (Event Rat) :=
  (machine (demoConfig .failStop)).perform (World.initial 1)
    (ratedActions ++ [.call (.client 2) (.query .health)])

/-- The third thread has taken the health. -/
def parkedRead : World Rat × List (Event Rat) :=
  (machine (demoConfig .failStop)).perform parkedClient.1 [.api (.client 2) .go]

/-- The `start` of `parkedClient` has failed after the health was taken. -/
def unparkedClient : World Rat × List (Event Rat) :=
  (machine (demoConfig .failStop)).perform parkedRead.1
    (.api (.client 1) (.fails "no thread") :: List.replicate 8 (.api (.client 1) .go))

/-- The rates of a snapshot. -/
def Event.rates : Event D → Option (Nat × Nat)
  | .healthRead _ snapshot => some (snapshot.receiveRateHz, snapshot.deliveryRateHz)
  | _ => none

theorem healthRead_of_rates {x : Nat × Nat} (h : x ∈ l.filterMap Event.rates) :
    ∃ t snapshot, .healthRead t snapshot ∈ l ∧
      x = (snapshot.receiveRateHz, snapshot.deliveryRateHz) := by
  obtain ⟨e, he, hx⟩ := List.mem_filterMap.mp h
  cases e with
  | healthRead t snapshot => exact ⟨t, snapshot, he, (Option.some.inj hx).symm⟩
  | _ => cases hx

/-- While a `start` that is going to fail keeps the windows aside, the rates are zero, although
the record of the last successful `start` was received within the last second. -/
theorem rates_lost_in_failed_start :
    ∃ (w w' w'' : World Rat) (l l' l'' : List (Event Rat)) (a : Action Rat) (t : Tid)
      (snapshot : HealthSnapshot Rat) (message : String),
      Reachable (demoConfig .failStop) w l ∧
      step (demoConfig .failStop) w a = some (w', l') ∧ .healthRead t snapshot ∈ l' ∧
      snapshot.receiveRateHz = 0 ∧ snapshot.deliveryRateHz = 0 ∧
      (recent w.clock (recordTimes (currentRun l))).length = 1 ∧
      (recent w.clock (sampleTimes (currentRun l))).length = 1 ∧
      (machine (demoConfig .failStop)).Run w' l'' w'' ∧
      .threw (.client 1) (.start (some 1)) message ∈ l'' ∧ ∀ e ∈ l'', e.creates = false := by
  have hreach : Reachable (demoConfig .failStop) parkedClient.1 parkedClient.2 :=
    ⟨1, Machine.run_perform (by decide +kernel)⟩
  have hstep : step (demoConfig .failStop) parkedClient.1 (.api (.client 2) .go) =
      some (parkedRead.1, parkedRead.2) := step_perform (by decide +kernel)
  have hrates : (0, 0) ∈ parkedRead.2.filterMap Event.rates := by decide +kernel
  obtain ⟨t, snapshot, he, hx⟩ := healthRead_of_rates hrates
  obtain ⟨hreceive, hdelivery⟩ := Prod.mk.inj hx
  have hthrew : .threw (.client 1) (.start (some 1)) "thread creation failed" ∈ unparkedClient.2 := by
    decide +kernel
  exact ⟨_, _, unparkedClient.1, _, _, unparkedClient.2, _, t, snapshot, _, hreach, hstep, he,
    hreceive.symm, hdelivery.symm, by decide +kernel, by decide +kernel,
    Machine.run_perform (by decide +kernel), hthrew, by decide +kernel⟩

/-- The health is about to be taken again, after the rollback. -/
def restoredActions : List (Action Rat) :=
  ratedActions ++ .api (.client 1) (.fails "no thread") ::
    List.replicate 8 (.api (.client 1) .go) ++ [.call (.client 2) (.query .health)]

def restoredClient : World Rat × List (Event Rat) :=
  (machine (demoConfig .failStop)).perform (World.initial 1) restoredActions

def restoredRead : World Rat × List (Event Rat) :=
  (machine (demoConfig .failStop)).perform restoredClient.1 [.api (.client 2) .go]

theorem rates_count_last_second_restoredClient :
    ∃ t snapshot, .healthRead t snapshot ∈ restoredRead.2 ∧
      snapshot.receiveRateHz = 1 ∧ snapshot.deliveryRateHz = 1 := by
  have hexec : ((machine (demoConfig .failStop)).exec (World.initial 1) restoredActions).isSome := by
    decide +kernel
  have hreach : Reachable (demoConfig .failStop) restoredClient.1 restoredClient.2 :=
    ⟨1, Machine.run_perform hexec⟩
  have hstep : step (demoConfig .failStop) restoredClient.1 (.api (.client 2) .go) =
      some (restoredRead.1, restoredRead.2) := step_perform (by decide +kernel)
  have hnone : ∀ t, (restoredClient.1.api t).parked = none := by
    intro t
    by_cases h0 : t = .client 0
    · subst h0; decide +kernel
    by_cases h1 : t = .client 1
    · subst h1; decide +kernel
    by_cases h2 : t = .client 2
    · subst h2; decide +kernel
    have hcallers : ∀ a ∈ restoredActions,
        a.caller ∈ [none, some (.client 0), some (.client 1), some (.client 2)] := by decide
    have hsame := exec_api_of_ne (Machine.exec_eq_perform hexec) (t := t) (by
      intro a ha heq
      have := hcallers a ha
      simp [heq, h0, h1, h2] at this)
    rw [show restoredClient.1.api t = .idle from hsame]
    rfl
  have hread : restoredRead.2.filterMap Event.rates ≠ [] := by decide +kernel
  obtain ⟨x, hx⟩ := List.exists_mem_of_ne_nil _ hread
  obtain ⟨t, snapshot, he, -⟩ := healthRead_of_rates hx
  obtain ⟨hreceive, hdelivery⟩ := (rates_count_last_second hreach hstep he).1 hnone
  refine ⟨t, snapshot, he, hreceive.trans ?_, hdelivery.trans ?_⟩
  · decide +kernel
  · decide +kernel

end NetFT.Client
