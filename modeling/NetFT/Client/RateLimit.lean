import Mathlib.Tactic.Linarith
import Mathlib.Tactic.Ring
import NetFT.Client.Accounting
import NetFT.Client.Launch

/-! The rate limit. While a worker executes, `last_delivery_at_` is the instant of the last
successful delivery of its run, as the history tells it, and a sample on its way to the callback
keeps the distance to it. -/

namespace NetFT.Client
open Detail Library

variable {D : Type}

/-- The filters that a record passes before the rate limit: it is neither a duplicate nor out of
order, its status is no error or such samples are wanted, and the FT sequence goes on. -/
def passesFilters (config : Config D) (rdt : SequenceKind) (ft : FtSequenceKind)
    (severity : StatusSeverity) : Bool :=
  !(rdt = .duplicate || rdt = .outOfOrder) &&
    (severity ≠ .error || config.deliverSamplesWithErrorStatus) && !ftDiscontinuity ft

/-- The time between two instants, in seconds. -/
def seconds (a b : TimePoint) : Rat := ((b : Rat) - a) / ticksPerSecond

/-- The worker and the instant of a successful delivery. -/
def Event.delivery : Event D → Option (Nat × TimePoint)
  | .delivered n sample => some (n, sample.receivedAt)
  | _ => none

/-- The instants of the successful deliveries of a worker. -/
def deliveries (n : Nat) (l : List (Event D)) : List TimePoint :=
  l.filterMap fun e => e.delivery.bind fun d => if d.1 = n then some d.2 else none

variable {config : Config D} {w w' : World D} {t : Tid} {n k : Nat} {c : Choice D}
  {worker : Worker D} {r : RunNext D} {l l' : List (Event D)}

theorem deliveries_append (n : Nat) (l l' : List (Event D)) :
    deliveries n (l ++ l') = deliveries n l ++ deliveries n l' := List.filterMap_append

theorem deliveries_nil (h : ∀ e ∈ l, e.delivery = none) : deliveries n l = [] := by
  rw [deliveries, List.filterMap_eq_nil_iff]
  intro e he
  rw [h e he]
  rfl

theorem recordVerdict_eq (config : Config D) (lastDeliveryAt receivedAt : TimePoint)
    (rdt : SequenceKind) (ft : FtSequenceKind) (severity : StatusSeverity) :
    (recordVerdict config lastDeliveryAt receivedAt rdt ft severity).deliver =
        (passesFilters config rdt ft severity &&
          !rateLimitHolds config lastDeliveryAt receivedAt) ∧
      (recordVerdict config lastDeliveryAt receivedAt rdt ft severity).rateLimited =
        (passesFilters config rdt ft severity &&
          rateLimitHolds config lastDeliveryAt receivedAt) := by
  have hpass : (if ftDiscontinuity ft then false
      else if severity = .error then
        config.deliverSamplesWithErrorStatus && !(rdt = .duplicate || rdt = .outOfOrder)
      else !(rdt = .duplicate || rdt = .outOfOrder)) = passesFilters config rdt ft severity := by
    unfold passesFilters
    cases ftDiscontinuity ft <;> by_cases hsev : severity = .error <;> simp [hsev, Bool.and_comm]
  simp only [recordVerdict, hpass]
  cases passesFilters config rdt ft severity <;>
    cases rateLimitHolds config lastDeliveryAt receivedAt <;> simp

/-- The last delivery of the run does not limit a record received at `receivedAt`. -/
def Spaced (config : Config D) (last : Option TimePoint) (receivedAt : TimePoint) : Prop :=
  ∀ instant ∈ last, 1 / config.sampleRateLimitHz ≤ seconds instant receivedAt

theorem rateLimitHolds_iff {last : Option TimePoint} {receivedAt : TimePoint}
    (hrate : 0 < config.sampleRateLimitHz) (hpos : ∀ instant ∈ last, 0 < instant) :
    rateLimitHolds config (last.getD 0) receivedAt = true ↔
      ∃ instant, last = some instant ∧
        seconds instant receivedAt < 1 / config.sampleRateLimitHz := by
  cases last with
  | none => simp [rateLimitHolds]
  | some instant =>
    have hne : instant ≠ 0 := Nat.pos_iff_ne_zero.mp (hpos instant rfl)
    simp [rateLimitHolds, hrate, hne, seconds]

/-- What the position of a worker says about the slot. -/
def Slot (config : Config D) (last : Option TimePoint) (lastDeliveryAt : TimePoint) :
    RunPc D → Prop
  | .session (.valid _ receivedAt) | .session (.record (.observe _ receivedAt))
  | .session (.record (.account _ receivedAt _ _)) =>
    lastDeliveryAt = last.getD 0 ∧ 0 < receivedAt
  | .session (.record (.copyCallback sample _)) | .session (.record (.inCallback sample _))
  | .session (.record (.commit sample _)) =>
    lastDeliveryAt = last.getD 0 ∧ 0 < sample.receivedAt ∧ Spaced config last sample.receivedAt
  | .session (.record (.commitData sample _)) =>
    lastDeliveryAt = sample.receivedAt ∧ 0 < sample.receivedAt ∧
      Spaced config last sample.receivedAt
  | _ => lastDeliveryAt = last.getD 0

theorem no_delivery : ∀ e ∈ ([] : List (Event D)), e.delivery = none := by simp

theorem afterRecord_slot {last : Option TimePoint} {i : Impl D} {outcome : Option SessionResult}
    {events : List (Event D)} (h : i.lastDeliveryAt = last.getD 0)
    (hevents : ∀ e ∈ events, e.delivery = none) :
    Slot config last (afterRecord i worker n outcome events).impl.lastDeliveryAt
        (afterRecord i worker n outcome events).worker.pc ∧
      ∀ e ∈ (afterRecord i worker n outcome events).events, e.delivery = none := by
  rw [afterRecord_impl]
  cases outcome with
  | none => exact ⟨h, hevents⟩
  | some result =>
    refine ⟨h, fun e he => ?_⟩
    rcases List.mem_append.mp he with he | he
    · exact hevents e he
    · cases List.mem_singleton.mp he; rfl

theorem recordNext_slot [Double D] {p : RecordPc D} {last : Option TimePoint}
    (hrate : 0 < config.sampleRateLimitHz) (hpos : ∀ instant ∈ last, 0 < instant)
    (hnext : recordNext config w n c worker p = some r)
    (hp : ∀ sample outcome, p ≠ .commitData sample outcome)
    (h : Slot config last w.impl.lastDeliveryAt (.session (.record p))) :
    Slot config last r.impl.lastDeliveryAt r.worker.pc ∧ ∀ e ∈ r.events, e.delivery = none := by
  cases p with
  | observe record receivedAt => cases hnext; exact ⟨h, no_delivery⟩
  | account record receivedAt rdt ft =>
    simp only [recordNext] at hnext
    split at hnext
    · cases hnext; exact ⟨h.1, no_delivery⟩
    · rename_i haccount
      obtain ⟨-, rfl, hverdict⟩ := account_some haccount
      split at hnext <;> cases hnext
      · exact afterRecord_slot h.1 (by simp [Event.delivery])
      · rename_i hdispose
        obtain ⟨hdeliver, rfl, -, -⟩ := dispose_deliver hdispose
        refine ⟨⟨h.1, h.2, fun instant hinstant => ?_⟩, by simp [Event.delivery]⟩
        -- the record was not limited, so the last delivery is far enough
        rw [hverdict, Impl.verdict, (recordVerdict_eq ..).1, h.1, Bool.and_eq_true] at hdeliver
        have hfree : ¬ rateLimitHolds config (last.getD 0) receivedAt = true := by
          simpa using hdeliver.2
        rw [rateLimitHolds_iff hrate hpos] at hfree
        exact not_lt.mp fun hlt => hfree ⟨instant, hinstant, hlt⟩
  | copyCallback sample outcome =>
    simp only [recordNext] at hnext
    (repeat' split at hnext) <;> cases hnext <;>
      first
      | exact ⟨h, by simp [Event.delivery]⟩
      | exact ⟨h.1, by simp [Event.delivery]⟩
  | inCallback sample outcome =>
    simp only [recordNext] at hnext
    (repeat' split at hnext) <;> cases hnext <;>
      first
      | exact ⟨h, no_delivery⟩
      | exact ⟨h.1, no_delivery⟩
  | commit sample outcome => cases hnext; exact ⟨⟨rfl, h.2⟩, no_delivery⟩
  | commitData sample outcome => exact absurd rfl (hp sample outcome)
  | callbackFailed message outcome => cases hnext; exact afterRecord_slot h (by simp [Event.delivery])
  | notifyFirst outcome => cases hnext; exact ⟨h, no_delivery⟩
  | notifyLifecycle outcome => cases hnext; exact afterRecord_slot h no_delivery

theorem applyConfiguration_lastDeliveryAt [DecidableEq D] {i : Impl D}
    (configuration : SensorConfiguration D) :
    (i.applyConfiguration configuration).lastDeliveryAt = i.lastDeliveryAt := by
  unfold Impl.applyConfiguration
  split
  · split <;> rfl
  · rfl

theorem delivery_of_owner {e : Event D} (h : e.owner = none) : e.delivery = none := by
  cases e <;> first | rfl | cases h

theorem owner_of_delivery {e : Event D} {instant : TimePoint} (h : e.delivery = some (n, instant)) :
    e.owner = some n := by
  cases e <;> cases h
  rfl

section
variable [DecidableEq D] [Double D]

theorem sessionNext_slot {p : SessionPc D} {last : Option TimePoint}
    (hrate : 0 < config.sampleRateLimitHz) (hclock : 0 < w.clock)
    (hpos : ∀ instant ∈ last, 0 < instant) (hnext : sessionNext config w n c worker p = some r)
    (hp : ∀ sample outcome, p ≠ .record (.commitData sample outcome))
    (h : Slot config last w.impl.lastDeliveryAt (.session p)) :
    Slot config last r.impl.lastDeliveryAt r.worker.pc ∧ ∀ e ∈ r.events, e.delivery = none := by
  cases p with
  | record q => exact recordNext_slot hrate hpos hnext (fun s o hq => hp s o (by rw [hq])) h
  | apply configuration =>
    cases hnext
    exact ⟨(applyConfiguration_lastDeliveryAt configuration).trans h, no_delivery⟩
  | sendStart =>
    simp only [sessionNext] at hnext
    split at hnext <;> cases hnext <;> exact ⟨h, fun e he => delivery_of_owner (send_owner ‹_› e he)⟩
  | connect =>
    simp only [sessionNext] at hnext
    split at hnext <;> cases hnext
    · refine ⟨h, fun e he => ?_⟩
      rcases List.mem_append.mp he with he | he
      · exact delivery_of_owner (closedEvents_owner _ e he)
      · cases List.mem_singleton.mp he; rfl
    · exact ⟨h, no_delivery⟩
  | pollCheck =>
    cases hnext
    dsimp only
    split <;> exact ⟨h, no_delivery⟩
  | stamp record => cases hnext; exact ⟨⟨h, hclock⟩, no_delivery⟩
  | valid record receivedAt =>
    simp only [sessionNext] at hnext
    split at hnext <;> cases hnext
    · exact ⟨h.1, no_delivery⟩
    · exact ⟨h, no_delivery⟩
  | _ =>
    simp only [sessionNext] at hnext
    (repeat' split at hnext) <;> cases hnext <;> exact ⟨h, by simp [Event.delivery]⟩

/-- A step that does not commit a delivery. -/
theorem runNext_slot {p : RunPc D} {last : Option TimePoint}
    (hrate : 0 < config.sampleRateLimitHz) (hclock : 0 < w.clock)
    (hpos : ∀ instant ∈ last, 0 < instant) (hnext : runNext config w n c worker p = some r)
    (hp : ∀ sample outcome, p ≠ .session (.record (.commitData sample outcome)))
    (h : Slot config last w.impl.lastDeliveryAt p) :
    Slot config last r.impl.lastDeliveryAt r.worker.pc ∧ ∀ e ∈ r.events, e.delivery = none := by
  cases p with
  | session q => exact sessionNext_slot hrate hclock hpos hnext (fun s o hq => hp s o (by rw [hq])) h
  | close context =>
    simp only [runNext] at hnext
    split at hnext
    · split at hnext <;> cases hnext
      exact ⟨h, fun e he => delivery_of_owner (send_owner ‹_› e he)⟩
    · cases hnext; exact ⟨h, no_delivery⟩
  | closeTransport context =>
    cases hnext
    exact ⟨by cases context <;> exact h, fun e he => delivery_of_owner (closedEvents_owner _ e he)⟩
  | raised message | finalFaulted =>
    cases hnext
    dsimp only
    split <;> exact ⟨h, no_delivery⟩
  | publish code message =>
    cases hnext
    have hsame : (w.impl.publish code message).lastDeliveryAt = w.impl.lastDeliveryAt := by
      unfold Impl.publish
      split <;> rfl
    refine ⟨hsame.trans h, ?_⟩
    dsimp only
    split <;> simp [Event.delivery]
  | _ =>
    simp only [runNext] at hnext
    (repeat' split at hnext) <;> cases hnext <;> exact ⟨h, by simp [Event.delivery, nextSession]⟩

end

/-! ## Runs -/

theorem spaced_concat {times : List TimePoint} {instant : TimePoint}
    (hrate : 0 < config.sampleRateLimitHz)
    (h : times.Pairwise fun a b => 1 / config.sampleRateLimitHz ≤ seconds a b)
    (hlast : Spaced config times.getLast? instant) :
    (times ++ [instant]).Pairwise fun a b => 1 / config.sampleRateLimitHz ≤ seconds a b := by
  have hslot : 0 < 1 / config.sampleRateLimitHz := one_div_pos.mpr hrate
  refine List.pairwise_append.mpr ⟨h, List.pairwise_singleton .., fun a ha b hb => ?_⟩
  cases List.mem_singleton.mp hb
  rcases List.eq_nil_or_concat times with rfl | ⟨before, last, rfl⟩
  · cases ha
  rw [List.concat_eq_append] at ha h hlast
  have hfar := hlast last (by simp)
  rcases List.mem_append.mp ha with ha | ha
  · have hbefore := (List.pairwise_append.mp h).2.2 a ha last (by simp)
    have hsum : seconds a instant = seconds a last + seconds last instant := by
      unfold seconds
      ring
    linarith
  · rwa [List.mem_singleton.mp ha]

/-- The facts about one worker that hold in every run. -/
structure Slotted (config : Config D) (w : World D) (l : List (Event D)) (n : Nat) : Prop where
  unborn : w.created ≤ n → deliveries n l = []
  positive : ∀ instant ∈ deliveries n l, 0 < instant
  spaced : (deliveries n l).Pairwise fun a b => 1 / config.sampleRateLimitHz ≤ seconds a b
  slot : w.executing n →
    Slot config (deliveries n l).getLast? w.impl.lastDeliveryAt (w.workers n).pc

theorem Slotted.other (h : Slotted config w l n) (hdeliveries : deliveries n l' = [])
    (hcreated : w.created ≤ w'.created)
    (hslot : w'.executing n →
      Slot config (deliveries n l).getLast? w'.impl.lastDeliveryAt (w'.workers n).pc) :
    Slotted config w' (l ++ l') n := by
  have hsame : deliveries n (l ++ l') = deliveries n l := by
    rw [deliveries_append, hdeliveries, List.append_nil]
  constructor
  · rw [hsame]; exact fun hle => h.unborn (Nat.le_trans hcreated hle)
  · rw [hsame]; exact h.positive
  · rw [hsame]; exact h.spaced
  · rw [hsame]; exact hslot

theorem Slotted.last_pos (h : Slotted config w l n) :
    ∀ instant ∈ (deliveries n l).getLast?, 0 < instant :=
  fun instant hlast => h.positive instant (List.mem_of_getLast? hlast)

section
variable [DecidableEq D] [Double D]

theorem runNext_deliveries {p : RunPc D} (hnext : runNext config w n c worker p = some r)
    (hk : k ≠ n) : deliveries k r.events = [] := by
  rw [deliveries, List.filterMap_eq_nil_iff]
  intro e he
  cases hd : e.delivery with
  | none => rfl
  | some d =>
    have howner := owner_of_delivery hd
    rcases runNext_owner hnext e he with hnone | hn
    · simp [hnone] at howner
    · have hd : d.1 = n := Option.some.inj (howner.symm.trans hn)
      simp [hd, hk.symm]

theorem Slotted.run (hrate : 0 < config.sampleRateLimitHz) (hclock : 0 < w.clock)
    (h : Slotted config w l n) (hrun : w.executing n) (hlast : n < w.created)
    (hnext : runNext config w n c (w.workers n) (w.workers n).pc = some r) :
    Slotted config (w.applyRun n r) (l ++ r.events) n := by
  have hslot := h.slot hrun
  by_cases hcommit : ∃ sample outcome,
      (w.workers n).pc = .session (.record (.commitData sample outcome))
  · obtain ⟨sample, outcome, hpc⟩ := hcommit
    rw [hpc] at hnext hslot
    cases hnext
    have hmore : deliveries n (l ++ [.delivered n sample]) =
        deliveries n l ++ [sample.receivedAt] := by
      rw [deliveries_append]
      simp [deliveries, Event.delivery]
    constructor
    · exact fun hle => absurd hle (Nat.not_le.mpr hlast)
    · rw [hmore]
      intro instant hinstant
      rcases List.mem_append.mp hinstant with hold | hnew
      · exact h.positive instant hold
      · rw [List.mem_singleton.mp hnew]; exact hslot.2.1
    · rw [hmore]; exact spaced_concat hrate h.spaced hslot.2.2
    · intro _
      rw [hmore, List.getLast?_concat, World.applyRun_workers, Function.update_self]
      exact hslot.1
  · have hp : ∀ sample outcome,
        (w.workers n).pc ≠ .session (.record (.commitData sample outcome)) :=
      fun sample outcome hpc => hcommit ⟨sample, outcome, hpc⟩
    obtain ⟨hnew, hevents⟩ := runNext_slot hrate hclock h.last_pos hnext hp hslot
    refine h.other (deliveries_nil hevents) (Nat.le_refl _) fun _ => ?_
    rw [World.applyRun_workers, Function.update_self]
    exact hnew

theorem slotted_of_run (hrate : 0 < config.sampleRateLimitHz) (hclock : 0 < clock)
    (h : (machine config).Run (World.initial clock) l w) :
    0 < w.clock ∧ ∀ n, Slotted config w l n := by
  refine h.invariant (I := fun w l => 0 < w.clock ∧ ∀ n, Slotted config w l n) ?_ ?_
  · refine ⟨hclock, fun n => ⟨fun _ => rfl, ?_, .nil, ?_⟩⟩ <;> intros <;> contradiction
  · intro v k a v' k' hv hi hstep
    have hstep : step config v a = some (v', k') := hstep
    have hr : Reachable config v k := ⟨clock, hv⟩
    have ho := hr.orderly
    obtain ⟨hpos, hi⟩ := hi
    cases a with
    | run m c =>
      obtain ⟨r, hnext, -, rfl, rfl⟩ := step_run hstep
      have hrun := executing_of_next hnext
      refine ⟨hpos, fun n => ?_⟩
      by_cases hn : n = m
      · subst hn
        have hlast := ho.life.last_of_executing hrun
        exact (hi n).run hrate hpos hrun (by omega) hnext
      · have hworker : (v.applyRun m r).workers n = v.workers n := Function.update_of_ne hn ..
        refine (hi n).other (runNext_deliveries hnext hn) (Nat.le_refl _) fun hexec => ?_
        rw [World.executing, hworker] at hexec
        exact absurd (ho.executing_unique hrun hexec) hn
    | api t c =>
      obtain ⟨r, hnext, -, rfl, rfl⟩ := step_api hstep
      have hnone : ∀ e ∈ r.events, e.delivery = none := fun e he =>
        delivery_of_owner (owner_of_byApi (apiNext_events hnext e he))
      refine ⟨hpos, fun n => (hi n).other (deliveries_nil hnone)
        (created_le_applyApi ..) fun hexec => ?_⟩
      rcases ho.applyApi_worker config t r n with hworker | ⟨hunborn, htop⟩
      · rw [World.executing, hworker] at hexec
        rw [World.applyApi_impl, hworker, (ho.apiNext_runData hnext hexec).lastDeliveryAt]
        exact (hi n).slot hexec
      · rw [htop, World.applyApi_impl]
        show r.impl.lastDeliveryAt = _
        rw [(hi n).unborn (created_of_spawned hunborn htop).ge,
          (hr.launch.created hnext hunborn htop).2]
        rfl
    | call t call =>
      simp only [step] at hstep
      (repeat' split at hstep) <;> cases hstep
      exact ⟨hpos, fun n => (hi n).other rfl (Nat.le_refl _) (hi n).slot⟩
    | tick ticks =>
      cases hstep
      exact ⟨Nat.lt_of_lt_of_le hpos (Nat.le_add_right ..), fun n =>
        (hi n).other rfl (Nat.le_refl _) (hi n).slot⟩
    | spurious t =>
      cases hstep
      exact ⟨hpos, fun n => (hi n).other rfl (Nat.le_refl _) (hi n).slot⟩

/-- In every run with a rate limit, with a clock that does not read zero: any two successful
deliveries of a worker are at least `1 / sample_rate_limit_hz` apart, and a record that passes the
other filters is dropped and counted as limited exactly when it is received less than that after
the last successful delivery of the same worker. -/
theorem rate_limit_spaces_deliveries (hrate : 0 < config.sampleRateLimitHz) (hclock : 0 < clock)
    (h : (machine config).Run (World.initial clock) l w) :
    (∀ n, (deliveries n l).Pairwise fun a b => 1 / config.sampleRateLimitHz ≤ seconds a b) ∧
    ∀ a w' l', step config w a = some (w', l') →
      (∀ n x, .processed n x ∈ l' →
        passesFilters config x.rdt.kind x.ft (classifyStatus x.record.status) = true →
        ((x.converted = none ∧
            w'.impl.health.rateLimitedCount = w.impl.health.rateLimitedCount + 1) ↔
          ∃ instant, (deliveries n l).getLast? = some instant ∧
            seconds instant x.receivedAt < 1 / config.sampleRateLimitHz)) ∧
      (w'.impl.health.rateLimitedCount ≠ w.impl.health.rateLimitedCount →
        ∃ n x, .processed n x ∈ l' ∧
          passesFilters config x.rdt.kind x.ft (classifyStatus x.record.status) = true) := by
  obtain ⟨-, hslotted⟩ := slotted_of_run hrate hclock h
  have hreach : Reachable config w l := ⟨clock, h⟩
  refine ⟨fun n => (hslotted n).spaced, fun a w' l' hstep => ⟨fun n x he hpass => ?_, fun hne => ?_⟩⟩
  · obtain ⟨m, c, rfl⟩ := run_of_event hstep he rfl rfl
    obtain ⟨r, hnext, -, rfl, rfl⟩ := step_run hstep
    obtain ⟨rfl, hpc, himpl, configuration, -, hlimited, hconverted⟩ := runNext_processed hnext he
    have hslot := (hslotted n).slot (executing_of_next hnext)
    rw [hpc] at hslot
    rw [← rateLimitHolds_iff hrate (hslotted n).last_pos, ← hslot.1]
    have hverdict := recordVerdict_eq config w.impl.lastDeliveryAt x.receivedAt x.rdt.kind x.ft
      (classifyStatus x.record.status)
    rw [hpass, Bool.true_and, Bool.true_and] at hverdict
    rw [Impl.verdict, hverdict.1] at hconverted
    rw [Impl.verdict, hverdict.2] at hlimited
    have hcount : (w.applyRun n r).impl.health.rateLimitedCount =
        w.impl.health.rateLimitedCount +
          if rateLimitHolds config w.impl.lastDeliveryAt x.receivedAt then 1 else 0 := by
      rw [← hlimited, World.applyRun_impl, himpl]
      have htally := accounted_tally config w.impl x (hlimited.trans hverdict.2.symm)
      exact congrArg Tally.rateLimited htally
    rw [hcount, hconverted]
    cases rateLimitHolds config w.impl.lastDeliveryAt x.receivedAt <;> simp
  · obtain ⟨n, c, rfl⟩ := lifetime_step hreach hstep fun hsame =>
      hne (congrArg (fun h => h.rateLimitedCount) hsame)
    obtain ⟨r, hnext, -, rfl, rfl⟩ := step_run hstep
    rcases runNext_tally hnext with ⟨-, hsame⟩ | ⟨x, -, he, hadd⟩
    · exact absurd (congrArg Tally.rateLimited hsame) hne
    · obtain ⟨-, -, -, -, -, hlimited, -⟩ := runNext_processed hnext he
      refine ⟨n, x, he, ?_⟩
      have hcount := congrArg Tally.rateLimited hadd
      rw [Impl.verdict, (recordVerdict_eq ..).2] at hlimited
      by_contra hpass
      rw [eq_false_of_ne_true hpass, Bool.false_and] at hlimited
      simp only [Tally.add, hlimited, Bool.false_eq_true, if_false] at hcount
      exact hne hcount

end

/-! ### A run -/

/-- At most one sample a second. -/
def slowConfig : Config Rat := { demoConfig .failStop with sampleRateLimitHz := 1 }

/-- One record is delivered, and half a second later another one is about to be accounted for. -/
def limitedClient : World Rat × List (Event Rat) :=
  (machine slowConfig).perform (World.initial 1)
    (startActions (.client 0) ++ openActions 0 ++ receiveActions 0 (plainRecord 1 1) ++
      [.tick 500000000] ++ (receiveActions 0 (plainRecord 2 2)).take 10)

def accountedClient : World Rat × List (Event Rat) :=
  (machine slowConfig).perform limitedClient.1 [.run 0 .go]

/-- What is reported of the second record. -/
def limitedRecord : Processed Rat where
  record := { rdtSequence := 2, ftSequence := 2, status := 0, fx := 0, fy := 0, fz := 0, tx := 0
              ty := 0, tz := 0 }
  receivedAt := 500000001
  rdt := { kind := .contiguous }
  ft := .forward
  rateLimited := true
  converted := none

theorem rate_limit_spaces_deliveries_limitedClient :
    deliveries 0 limitedClient.2 = [1] ∧
      accountedClient.1.impl.health.rateLimitedCount =
        limitedClient.1.impl.health.rateLimitedCount + 1 := by
  have hrun : (machine slowConfig).Run (World.initial 1) limitedClient.2 limitedClient.1 :=
    Machine.run_perform (by decide +kernel)
  have hstep : step slowConfig limitedClient.1 (.run 0 .go) =
      some (accountedClient.1, accountedClient.2) := step_perform (by decide +kernel)
  have hdeliveries : deliveries 0 limitedClient.2 = [1] := by decide +kernel
  have he : .processed 0 limitedRecord ∈ accountedClient.2 := by decide +kernel
  have hlaw := (rate_limit_spaces_deliveries (by decide +kernel) (by decide) hrun).2 _ _ _ hstep
  have hlimited := (hlaw.1 0 _ he (by decide +kernel)).mpr
    ⟨1, by rw [hdeliveries]; rfl, by decide +kernel⟩
  exact ⟨hdeliveries, hlimited.2⟩

end NetFT.Client
