import Mathlib.Data.List.Chain
import NetFT.Client.Policy
import NetFT.Client.Storm

/-! A healthy stream after `start`, under `FailStop`. The RDT tracker is reset in each session, the FT
tracker keeps its baseline for the life of the client. Where the first record of a run is ahead of
that baseline, every record that the run decodes is delivered and none ends the session
(`fresh_start_served`); where it is not, the first record does. -/

namespace NetFT.Client
open Detail Library

variable {D : Type}

/-! ## Healthy streams -/

/-- The number is ahead of the baseline, or there is no baseline. -/
def FtAhead (t : FtSequenceTracker) (current : UInt32) : Prop :=
  t.hasLast = true → current ≠ t.previous ∧ current - t.previous < halfRange

/-- One record follows another in a healthy stream. -/
structure Follows (a b : RawRecord) : Prop where
  rdt : b.rdtSequence - a.rdtSequence = 1
  ft : b.ftSequence ≠ a.ftSequence ∧ b.ftSequence - a.ftSequence < halfRange

/-- Records with status 0 that follow one another. -/
structure HealthyStream (records : List RawRecord) : Prop where
  status : ∀ r ∈ records, r.status = 0
  follows : records.IsChain Follows

theorem HealthyStream.init {records : List RawRecord} {r : RawRecord}
    (h : HealthyStream (records ++ [r])) :
    HealthyStream records ∧ r.status = 0 ∧ ∀ a, records.getLast? = some a → Follows a r := by
  obtain ⟨hinit, -, hlast⟩ := List.isChain_append.mp h.follows
  exact ⟨⟨fun r' hr' => h.status r' (List.mem_append_left _ hr'), hinit⟩,
    h.status r (List.mem_append_right _ (List.mem_singleton_self r)),
    fun a ha => hlast a ha r rfl⟩

/-! ## The service of a run -/

/-- What a worker has reported of its records. -/
structure Service (D : Type) where
  heard : List (Processed D) := []
  handed : List (Sample D) := []
  published : List FaultCode := []

namespace Service

def read (n : Nat) (g : Service D) : Event D → Service D
  | .processed k x => if k = n then { g with heard := g.heard ++ [x] } else g
  | .delivered k sample => if k = n then { g with handed := g.handed ++ [sample] } else g
  | .published k code => if k = n then { g with published := g.published ++ [code] } else g
  | _ => g

/-- All that was heard was converted and delivered. -/
def Served (g : Service D) : Prop := g.handed = g.heard.filterMap (·.converted)

/-- The records of the run. -/
def records (g : Service D) : List RawRecord := g.heard.map (·.record)

end Service

def service (n : Nat) (l : List (Event D)) : Service D := l.foldl (Service.read n) {}

/-- The record counts for delivery. -/
structure Processed.Accepted (x : Processed D) : Prop where
  rdt : x.rdt.kind = .first ∨ x.rdt.kind = .contiguous
  ft : x.ft = .first ∨ x.ft = .forward
  converted : x.converted.isSome = true

/-- The fault is one of a record or of the sensor configuration. -/
def blamesRecord : FaultCode → Bool
  | .sensorConfiguration | .seriousStatus | .ftStall | .ftBackward | .callback => true
  | _ => false

variable {config : Config D} {w w' : World D} {t : Tid} {n k : Nat} {c : Choice D}
  {worker : Worker D} {r : RunNext D} {l l' : List (Event D)} {g : Service D} {i : Impl D}
  {v : Provenance D}

theorem blamesRecord_faultFor (result : SessionResult) :
    blamesRecord (faultFor result) = result.ofRecord := by
  cases result <;> rfl

theorem service_append (n : Nat) (l l' : List (Event D)) :
    service n (l ++ l') = l'.foldl (Service.read n) (service n l) := List.foldl_append

theorem Service.foldl_other {l : List (Event D)} (h : ∀ e ∈ l, e.owner ≠ some n) (g : Service D) :
    l.foldl (Service.read n) g = g := by
  induction l generalizing g with
  | nil => rfl
  | cons e l ih =>
    have hsame : g.read n e = g := by
      have he := h e List.mem_cons_self
      cases e <;> simp_all [Service.read, Event.owner]
    rw [List.foldl_cons, hsame]
    exact ih (fun e' he' => h e' (List.mem_cons_of_mem _ he')) g

/-- What was heard stays. -/
theorem Service.foldl_heard (l : List (Event D)) (g : Service D) :
    ∃ xs, (l.foldl (Service.read n) g).heard = g.heard ++ xs := by
  induction l generalizing g with
  | nil => exact ⟨[], by simp⟩
  | cons e l ih =>
    obtain ⟨xs, hxs⟩ := ih (g.read n e)
    have hread : ∃ ys, (g.read n e).heard = g.heard ++ ys := by
      cases e with
      | processed k x =>
        simp only [Service.read]
        split
        · exact ⟨[x], rfl⟩
        · exact ⟨[], by simp⟩
      | delivered | published => simp only [Service.read]; split <;> exact ⟨[], by simp⟩
      | _ => exact ⟨[], by simp [Service.read]⟩
    obtain ⟨ys, hys⟩ := hread
    exact ⟨ys ++ xs, by rw [List.foldl_cons, hxs, hys, List.append_assoc]⟩

/-! ## The trackers -/

/-- The trackers stand at a record. -/
structure TracksRecord (i : Impl D) (record : RawRecord) : Prop where
  hasLast : i.ftSequence.hasLast = true
  ft : i.ftSequence.previous = record.ftSequence
  rdt : i.rdtSequence.hasLast = true → i.rdtSequence.previous = record.rdtSequence

/-- The trackers stand at the last record; without one the RDT tracker is fresh. -/
structure Tracks (i : Impl D) (records : List RawRecord) : Prop where
  fresh : records = [] → i.rdtSequence.hasLast = false
  last : ∀ a, records.getLast? = some a → TracksRecord i a

theorem ftObserve_ahead {ft : FtSequenceTracker} {current : UInt32} (h : FtAhead ft current) :
    ((ft.observe current).2 = .first ∨ (ft.observe current).2 = .forward) ∧
      (ft.observe current).1.hasLast = true ∧ (ft.observe current).1.previous = current := by
  unfold FtSequenceTracker.observe
  cases hlast : ft.hasLast with
  | false => exact ⟨.inl rfl, rfl, rfl⟩
  | true =>
    obtain ⟨hne, hlt⟩ := h hlast
    simp [hne, hlt]

theorem rdtObserve_next {rdt : RdtSequenceTracker} {current : UInt32}
    (h : rdt.hasLast = true → current - rdt.previous = 1) :
    ((rdt.observe current).2.kind = .first ∨ (rdt.observe current).2.kind = .contiguous) ∧
      (rdt.observe current).1.previous = current := by
  unfold RdtSequenceTracker.observe
  cases hlast : rdt.hasLast with
  | false => exact ⟨.inl rfl, rfl⟩
  | true =>
    have hone := h hlast
    simp [hone, halfRange]

/-- A record that follows the last one, and is ahead of the baseline where the tracker is fresh. -/
theorem Tracks.observe {records : List RawRecord} {record : RawRecord} (h : Tracks i records)
    (hahead : i.rdtSequence.hasLast = false → FtAhead i.ftSequence record.ftSequence)
    (hfollows : ∀ a, records.getLast? = some a → Follows a record) :
    ((i.observe record).2.1.kind = .first ∨ (i.observe record).2.1.kind = .contiguous) ∧
      ((i.observe record).2.2 = .first ∨ (i.observe record).2.2 = .forward) ∧
      TracksRecord (i.observe record).1 record := by
  have hlast : i.rdtSequence.hasLast = true → ∃ a, records.getLast? = some a := fun hlast => by
    cases hrecords : records.getLast? with
    | some a => exact ⟨a, rfl⟩
    | none =>
      rw [h.fresh (List.getLast?_eq_none_iff.mp hrecords)] at hlast
      cases hlast
  have hft : FtAhead i.ftSequence record.ftSequence := by
    cases hrdt : i.rdtSequence.hasLast with
    | false => exact hahead hrdt
    | true =>
      obtain ⟨a, ha⟩ := hlast hrdt
      intro _
      rw [(h.last a ha).ft]
      exact (hfollows a ha).ft
  have hrdt : i.rdtSequence.hasLast = true →
      record.rdtSequence - i.rdtSequence.previous = 1 := fun hrdt => by
    obtain ⟨a, ha⟩ := hlast hrdt
    rw [(h.last a ha).rdt hrdt]
    exact (hfollows a ha).rdt
  obtain ⟨hkind, hprevious⟩ := rdtObserve_next hrdt
  obtain ⟨hft, hft₁, hft₂⟩ := ftObserve_ahead hft
  exact ⟨hkind, hft, hft₁, hft₂, fun _ => hprevious⟩

/-! ## The assumptions -/

/-- The callback is copied or executed. -/
def RunPc.calls : RunPc D → Bool
  | .session (.record (.copyCallback ..)) | .session (.record (.inCallback ..)) => true
  | _ => false

/-- The callback does not throw on worker `n`. -/
def CallbackReturns (n : Nat) (w : World D) : Action D → Prop
  | .run k c => k = n → (w.workers n).pc.calls = true → ∀ message, c ≠ .fails message
  | _ => True

/-- At the position, the receive timeout after a record does not leave the range of the clock, a
first record is ahead of the baseline that the FT tracker has kept, and a sample that is made has
finite axes. -/
def RunPc.Fresh [Double D] (config : Config D) (i : Impl D) : RunPc D → Prop
  | .session (.valid _ receivedAt) => checkedDeadline receivedAt config.receiveTimeout ≠ none
  | .session (.record (.observe record _)) =>
    i.rdtSequence.hasLast = false → FtAhead i.ftSequence record.ftSequence
  | .session (.record (.account record receivedAt ..)) => ∀ configuration,
    i.health.sensorConfiguration = some configuration →
      finiteAxes (makeSample configuration record receivedAt) = true
  | _ => True

/-- Worker `n` begins ahead of the baseline, its samples are finite, and the receive timeout after
each of its records is in range. -/
def FreshStart [Double D] (config : Config D) (n : Nat) (w : World D) : Action D → Prop
  | .run k _ => k = n → (w.workers n).pc.Fresh config w.impl
  | _ => True

/-- The steps of the runs below. -/
def StaysFresh [Double D] (config : Config D) (n : Nat) (w : World D) (a : Action D) : Prop :=
  CallbackReturns n w a ∧ FreshStart config n w a

/-- The positions at which a session handles a record, from its decoding on. -/
def RunPc.handlesRecord : RunPc D → Bool
  | .session (.stamp _) | .session (.valid ..) | .session (.record _) => true
  | _ => false

/-- The record that is decoded and not yet accounted for. -/
def RunPc.recordInHand : RunPc D → List RawRecord
  | .session (.stamp record) | .session (.valid record _)
  | .session (.record (.observe record _)) | .session (.record (.account record ..)) => [record]
  | _ => []

/-! ## A run -/

/-- How far the records of a run have come, by the position of its worker in `handle_record`. -/
def FreshRecord (i : Impl D) (g : Service D) : RecordPc D → Prop
  | .observe .. => Tracks i g.records ∧ g.Served
  | .account record _ rdt ft => g.Served ∧
    ((∀ a, g.records.getLast? = some a → Follows a record) →
      (rdt.kind = .first ∨ rdt.kind = .contiguous) ∧ (ft = .first ∨ ft = .forward) ∧
        TracksRecord i record)
  | .copyCallback sample outcome | .inCallback sample outcome | .commit sample outcome
  | .commitData sample outcome =>
    outcome = none ∧ Tracks i g.records ∧ g.heard.filterMap (·.converted) = g.handed ++ [sample]
  | .callbackFailed .. => False
  | .notifyFirst outcome | .notifyLifecycle outcome =>
    outcome = none ∧ Tracks i g.records ∧ g.Served

def FreshSession (i : Impl D) (g : Service D) : SessionPc D → Prop
  | .connecting | .checkBeforeDiscovery | .discover | .discoverFailed _ | .apply _
  | .checkBeforeConnect | .connect | .command | .sendStart | .trackerReset =>
    g.heard = [] ∧ g.Served
  | .socketFailed _ => g.Served
  | .record p => FreshRecord i g p
  | _ => Tracks i g.records ∧ g.Served

/-- What the service of a worker looks like under `FailStop`. -/
def FreshRun (i : Impl D) (g : Service D) : RunPc D → Prop
  | .unborn | .top => g.heard = [] ∧ g.Served ∧ g.published = []
  | .session p => FreshSession i g p ∧ g.published = []
  | .close (.session outcome) | .closeTransport (.session outcome) | .decide outcome =>
    g.Served ∧ (g.heard ≠ [] → outcome.result.ofRecord = false) ∧ g.published = []
  | .publish code _ => g.Served ∧ (g.heard ≠ [] → blamesRecord code = false) ∧ g.published = []
  | .raised _ => g.Served ∧ g.published = []
  | .enterBackoff _ | .backoffWait | .backoffBlock _ | .backoffAsleep _ => False
  | _ => g.Served ∧ ∀ code ∈ g.published, g.heard ≠ [] → blamesRecord code = false

theorem Tracks.reset {i' : Impl D} {records : List RawRecord} (h : Tracks i records)
    (hft : i'.ftSequence = i.ftSequence)
    (hrdt : i'.rdtSequence = i.rdtSequence ∨ i'.rdtSequence = i.rdtSequence.reset) :
    Tracks i' records := by
  refine ⟨fun hnil => ?_, fun a ha => ?_⟩
  · rcases hrdt with hrdt | hrdt <;> rw [hrdt]
    · exact h.fresh hnil
    · rfl
  · obtain ⟨hlast, hprevious, hkeep⟩ := h.last a ha
    refine ⟨hft ▸ hlast, hft ▸ hprevious, fun hl => ?_⟩
    rcases hrdt with hrdt | hrdt <;> rw [hrdt] at hl ⊢
    · exact hkeep hl
    · cases hl

theorem TracksRecord.reset {i' : Impl D} {record : RawRecord} (h : TracksRecord i record)
    (hft : i'.ftSequence = i.ftSequence)
    (hrdt : i'.rdtSequence = i.rdtSequence ∨ i'.rdtSequence = i.rdtSequence.reset) :
    TracksRecord i' record := by
  refine ⟨hft ▸ h.hasLast, hft ▸ h.ft, fun hl => ?_⟩
  rcases hrdt with hrdt | hrdt <;> rw [hrdt] at hl ⊢
  · exact h.rdt hl
  · cases hl

/-- The trackers of the members are kept, or the RDT tracker is reset. -/
theorem FreshRun.reset {i' : Impl D} {p : RunPc D} (h : FreshRun i g p)
    (hft : i'.ftSequence = i.ftSequence)
    (hrdt : i'.rdtSequence = i.rdtSequence ∨ i'.rdtSequence = i.rdtSequence.reset) :
    FreshRun i' g p := by
  cases p with
  | session p =>
    refine ⟨?_, h.2⟩
    have h := h.1
    cases p with
    | record p =>
      cases p with
      | observe record receivedAt => exact ⟨h.1.reset hft hrdt, h.2⟩
      | account record receivedAt rdt ft =>
        exact ⟨h.1, fun hfollows => (h.2 hfollows).imp id (And.imp id (·.reset hft hrdt))⟩
      | callbackFailed => exact h.elim
      | copyCallback | inCallback | commit | commitData | notifyFirst | notifyLifecycle =>
        exact ⟨h.1, h.2.1.reset hft hrdt, h.2.2⟩
    | connecting | checkBeforeDiscovery | discover | discoverFailed | apply | checkBeforeConnect
    | connect | command | sendStart | trackerReset | socketFailed => exact h
    | _ => exact ⟨h.1.reset hft hrdt, h.2⟩
  | close context | closeTransport context => cases context <;> exact h
  | _ => exact h

/-! ## Steps -/

theorem Service.records_processed (g : Service D) (x : Processed D) :
    (g.read n (.processed n x)).records = g.records ++ [x.record] := by
  simp [Service.read, Service.records]

/-- The verdict on a healthy record, without a rate limit. -/
theorem healthy_verdict (hrate : config.sampleRateLimitHz = 0)
    {lastDeliveryAt receivedAt : TimePoint} {rdt : SequenceKind} {ft : FtSequenceKind}
    (hrdt : rdt = .first ∨ rdt = .contiguous) (hft : ft = .first ∨ ft = .forward) :
    recordVerdict config lastDeliveryAt receivedAt rdt ft (classifyStatus 0) =
      { deliver := true, outcome := none, rateLimited := false } := by
  have hlimit : rateLimitHolds config lastDeliveryAt receivedAt = false := by
    simp [rateLimitHolds, hrate]
  rcases hrdt with rfl | rfl <;> rcases hft with rfl | rfl <;>
    simp [recordVerdict, hlimit, classifyStatus, statusOutcome, ftDiscontinuity]

theorem afterRecord_inHand {outcome : Option SessionResult} {events : List (Event D)} :
    (afterRecord i worker n outcome events).worker.pc.recordInHand = [] := by
  cases outcome <;> rfl

/-- The accounting section takes the record out of the hand. -/
theorem accountNext_heard [Double D] {record : RawRecord} {receivedAt : TimePoint}
    {rdt : SequenceObservation} {ft : FtSequenceKind} {configuration : SensorConfiguration D}
    (hconfiguration : w.impl.health.sensorConfiguration = some configuration)
    (hnext : recordNext config w n c worker (.account record receivedAt rdt ft) = some r)
    (g : Service D) :
    ∃ x : Processed D, r.events.foldl (Service.read n) g = g.read n (.processed n x) ∧
      x.record = record ∧ r.worker.pc.recordInHand = [] := by
  simp only [recordNext, Impl.account, hconfiguration] at hnext
  split at hnext <;> cases hnext
  · rename_i outcome _
    cases outcome <;> exact ⟨_, rfl, rfl, rfl⟩
  · exact ⟨_, rfl, rfl, rfl⟩

theorem recordNext_fresh [Double D] (hrate : config.sampleRateLimitHz = 0) {p : RecordPc D}
    (hnext : recordNext config w n c worker p = some r)
    (hreturns : (RunPc.session (.record p)).calls = true → ∀ message, c ≠ .fails message)
    (hok : (RunPc.session (.record p)).Fresh config w.impl)
    (hsourced : Sourced w.impl v (.session (.record p)))
    (hhealthy : HealthyStream (r.events.foldl (Service.read n) g).records)
    (h : FreshRecord w.impl g p) (hpublished : g.published = [])
    (haccepted : ∀ x ∈ g.heard, x.Accepted) :
    FreshRun r.impl (r.events.foldl (Service.read n) g) r.worker.pc ∧
      (∀ x ∈ (r.events.foldl (Service.read n) g).heard, x.Accepted) ∧
      (r.worker.pc.handlesRecord = true ∨ r.worker.pc = .session .loop) := by
  cases p with
  | observe record receivedAt =>
    cases hnext
    exact ⟨⟨⟨h.2, fun hfollows => h.1.observe hok hfollows⟩, hpublished⟩, haccepted, .inl rfl⟩
  | account record receivedAt rdt ft =>
    obtain ⟨-, configuration, _, -, hconfiguration⟩ := hsourced
    obtain ⟨hserved, hjudged⟩ := h
    have hfinite := hok _ hconfiguration
    obtain ⟨x, hx, hrecord, -⟩ := accountNext_heard hconfiguration hnext g
    simp only [recordNext, Impl.account, hconfiguration] at hnext
    rw [hx, Service.records_processed, hrecord] at hhealthy
    obtain ⟨-, hstatus, hfollows⟩ := hhealthy.init
    obtain ⟨hrdt, hft, htracks⟩ := hjudged hfollows
    have hverdict : w.impl.verdict config record receivedAt rdt ft =
        { deliver := true, outcome := none, rateLimited := false } := by
      rw [Impl.verdict, hstatus]
      exact healthy_verdict hrate hrdt hft
    simp only [hverdict, dispose, Bool.not_true, Bool.false_eq_true, if_false, hfinite, if_true]
      at hnext
    cases hnext
    simp only [List.foldl_cons, List.foldl_nil, Service.read, if_true]
    refine ⟨⟨⟨rfl, ⟨fun hnil => ?_, fun a ha => ?_⟩, ?_⟩, hpublished⟩, fun y hy => ?_, .inl rfl⟩
    · simp [Service.records] at hnil
    · obtain rfl : record = a := by simpa [Service.records] using ha
      exact ⟨htracks.hasLast, htracks.ft, htracks.rdt⟩
    · rw [List.filterMap_append, ← hserved]
      rfl
    · rcases List.mem_append.mp hy with hy | hy
      · exact haccepted y hy
      · rw [List.mem_singleton.mp hy]
        exact ⟨hrdt, hft, rfl⟩
  | copyCallback sample outcome =>
    simp only [recordNext] at hnext
    split at hnext
    · cases hnext; exact ⟨⟨h, hpublished⟩, haccepted, .inl rfl⟩
    · split at hnext <;> cases hnext
      · exact ⟨⟨h, hpublished⟩, haccepted, .inl rfl⟩
      · exact absurd rfl (hreturns rfl _)
  | inCallback sample outcome =>
    simp only [recordNext] at hnext
    split at hnext <;> cases hnext
    · exact ⟨⟨h, hpublished⟩, haccepted, .inl rfl⟩
    · exact absurd rfl (hreturns rfl _)
  | callbackFailed => exact h.elim
  | commit sample outcome =>
    cases hnext
    exact ⟨⟨⟨h.1, h.2.1.reset rfl (.inl rfl), h.2.2⟩, hpublished⟩, haccepted, .inl rfl⟩
  | commitData sample outcome =>
    cases hnext
    simp only [List.foldl_cons, List.foldl_nil, Service.read, if_true]
    exact ⟨⟨⟨h.1, h.2.1.reset rfl (.inl rfl), h.2.2.symm⟩, hpublished⟩, haccepted, .inl rfl⟩
  | notifyFirst outcome =>
    cases hnext
    exact ⟨⟨⟨h.1, h.2.1.reset rfl (.inl rfl), h.2.2⟩, hpublished⟩, haccepted, .inl rfl⟩
  | notifyLifecycle outcome =>
    cases hnext
    obtain ⟨rfl, htracks, hserved⟩ := h
    exact ⟨⟨⟨htracks.reset rfl (.inl rfl), hserved⟩, hpublished⟩, haccepted, .inr rfl⟩

section
variable [DecidableEq D] [Double D]

theorem sessionNext_fresh (hrate : config.sampleRateLimitHz = 0) {p : SessionPc D}
    (hnext : sessionNext config w n c worker p = some r)
    (hreturns : (RunPc.session p).calls = true → ∀ message, c ≠ .fails message)
    (hok : (RunPc.session p).Fresh config w.impl) (hsourced : Sourced w.impl v (.session p))
    (hhealthy : HealthyStream (r.events.foldl (Service.read n) g).records)
    (h : FreshSession w.impl g p) (hpublished : g.published = [])
    (haccepted : ∀ x ∈ g.heard, x.Accepted) :
    FreshRun r.impl (r.events.foldl (Service.read n) g) r.worker.pc ∧
      ∀ x ∈ (r.events.foldl (Service.read n) g).heard, x.Accepted := by
  cases p with
  | record p =>
    obtain ⟨hfresh, haccepted, -⟩ :=
      recordNext_fresh hrate hnext hreturns hok hsourced hhealthy h hpublished haccepted
    exact ⟨hfresh, haccepted⟩
  | sendStart =>
    simp only [sessionNext] at hnext
    split at hnext <;> cases hnext <;>
      rw [Service.foldl_other fun e he => by simp [send_owner ‹_› e he]]
    · exact ⟨⟨h, hpublished⟩, haccepted⟩
    · exact ⟨⟨h.2, hpublished⟩, haccepted⟩
  | connect =>
    simp only [sessionNext] at hnext
    split at hnext <;> cases hnext
    · have hclosed : w.impl.closedEvents.foldl (Service.read n) g = g :=
        Service.foldl_other (fun e he => by simp [closedEvents_owner _ e he]) g
      rw [List.foldl_append, hclosed]
      exact ⟨⟨h, hpublished⟩, haccepted⟩
    · exact ⟨⟨h.2, hpublished⟩, haccepted⟩
  | trackerReset =>
    cases hnext
    refine ⟨⟨⟨⟨fun _ => rfl, fun a ha => ?_⟩, h.2⟩, hpublished⟩, haccepted⟩
    simp [Service.records, h.1] at ha
  | checkBeforeDiscovery | checkBeforeConnect | command =>
    simp only [sessionNext] at hnext
    split at hnext <;> cases hnext
    · exact ⟨⟨h.2, fun _ => rfl, hpublished⟩, haccepted⟩
    · exact ⟨⟨h, hpublished⟩, haccepted⟩
  | discoverFailed message =>
    cases hnext
    exact ⟨⟨h.2, fun hne => absurd h.1 hne, hpublished⟩, haccepted⟩
  | connecting | apply => cases hnext; exact ⟨⟨h, hpublished⟩, haccepted⟩
  | discover =>
    simp only [sessionNext] at hnext
    (repeat' split at hnext) <;> cases hnext <;> exact ⟨⟨h, hpublished⟩, haccepted⟩
  | socketFailed message =>
    cases hnext
    refine ⟨⟨h, fun _ => ?_, hpublished⟩, haccepted⟩
    dsimp only
    split <;> rfl
  | malformed | valid =>
    simp only [sessionNext] at hnext
    split at hnext <;> cases hnext <;>
      first
      | exact ⟨⟨⟨h.1.reset rfl (.inl rfl), h.2⟩, hpublished⟩, haccepted⟩
      | exact ⟨⟨h.2, fun _ => rfl, hpublished⟩, haccepted⟩
      | exact ⟨⟨h.2, hpublished⟩, haccepted⟩
  | _ =>
    simp only [sessionNext] at hnext
    (repeat' split at hnext) <;> cases hnext <;>
      first
      | exact ⟨⟨h, hpublished⟩, haccepted⟩
      | exact ⟨⟨h.2, fun _ => rfl, hpublished⟩, haccepted⟩
      | exact ⟨⟨h.2, hpublished⟩, haccepted⟩

/-- A worker under `FailStop`. -/
theorem runNext_fresh (hpolicy : config.recoveryPolicy = .failStop)
    (hrate : config.sampleRateLimitHz = 0) {p : RunPc D}
    (hnext : runNext config w n c worker p = some r)
    (hreturns : p.calls = true → ∀ message, c ≠ .fails message) (hok : p.Fresh config w.impl)
    (hsourced : Sourced w.impl v p)
    (hhealthy : HealthyStream (r.events.foldl (Service.read n) g).records)
    (h : FreshRun w.impl g p) (haccepted : ∀ x ∈ g.heard, x.Accepted) :
    FreshRun r.impl (r.events.foldl (Service.read n) g) r.worker.pc ∧
      ∀ x ∈ (r.events.foldl (Service.read n) g).heard, x.Accepted := by
  cases p with
  | unborn | exited => cases hnext
  | session p =>
    exact sessionNext_fresh hrate hnext hreturns hok hsourced hhealthy h.1 h.2 haccepted
  | top =>
    simp only [runNext] at hnext
    split at hnext <;> cases hnext
    · exact ⟨⟨h.2.1, by simp [h.2.2]⟩, haccepted⟩
    · exact ⟨⟨⟨h.1, h.2.1⟩, h.2.2⟩, haccepted⟩
  | close context =>
    simp only [runNext] at hnext
    split at hnext
    · split at hnext <;> cases hnext
      rw [Service.foldl_other fun e he => by simp [send_owner ‹_› e he]]
      cases context <;> exact ⟨h, haccepted⟩
    · cases hnext
      cases context <;> exact ⟨h, haccepted⟩
  | closeTransport context =>
    cases hnext
    rw [Service.foldl_other fun e he => by simp [closedEvents_owner _ e he]]
    cases context <;> exact ⟨h, haccepted⟩
  | decide outcome =>
    obtain ⟨hserved, houtcome, hpublished⟩ := h
    simp only [runNext, hpolicy, and_true] at hnext
    by_cases hstopped : outcome.result = .stopped
    · simp only [hstopped, ne_eq, not_true_eq_false, if_false, true_or, if_true] at hnext
      cases hnext
      exact ⟨⟨hserved, by simp [hpublished]⟩, haccepted⟩
    · rw [if_pos hstopped] at hnext
      cases hnext
      refine ⟨⟨hserved, fun hne => ?_, hpublished⟩, haccepted⟩
      rw [blamesRecord_faultFor]
      exact houtcome hne
  | raised message =>
    cases hnext
    dsimp only
    split
    · exact ⟨⟨h.1, by simp [h.2]⟩, haccepted⟩
    · exact ⟨⟨h.1, fun _ => rfl, h.2⟩, haccepted⟩
  | publish code message =>
    obtain ⟨hserved, hcode, hpublished⟩ := h
    cases hnext
    split
    · exact ⟨⟨hserved, by simp [hpublished]⟩, haccepted⟩
    · simp only [List.foldl_cons, List.foldl_nil, Service.read, if_true]
      exact ⟨⟨hserved, by simpa [hpublished] using hcode⟩, haccepted⟩
  | finalFaulted =>
    cases hnext
    dsimp only
    split <;> exact ⟨h, haccepted⟩
  | enterBackoff | backoffWait | backoffBlock | backoffAsleep => exact h.elim
  | _ => cases hnext; exact ⟨h, haccepted⟩

end

/-- Among the entry points only `bias` touches a tracker: it resets the RDT tracker. -/
theorem apiNext_trackers {p : ApiPc D} {r : ApiNext D} (hnext : apiNext w t c p = some r) :
    r.impl.ftSequence = w.impl.ftSequence ∧
      (r.impl.rdtSequence = w.impl.rdtSequence ∨
        p = .bias .reset ∧ r.impl.rdtSequence = w.impl.rdtSequence.reset) := by
  cases apiNext_step hnext with
  | rollbackPublish =>
    simp only [Impl.publish]
    split <;> exact ⟨rfl, .inl rfl⟩
  | biasReset => exact ⟨rfl, .inr ⟨rfl, rfl⟩⟩
  | _ => exact ⟨rfl, .inl rfl⟩

/-! ## Runs -/

theorem FreshRun.idle {i' : Impl D} {p : RunPc D} (h : FreshRun i g p)
    (hp : p.running = false) : FreshRun i' g p := by
  cases p with
  | unborn | exited => exact h
  | _ => cases hp

/-- A worker whose run has been healthy so far. -/
structure Serving (n : Nat) (w : World D) (l : List (Event D)) : Prop where
  fresh : FreshRun w.impl (service n l) (w.workers n).pc
  accepted : ∀ x ∈ (service n l).heard, x.Accepted

theorem serving_initial (clock : TimePoint) : Serving (D := D) n (World.initial clock) [] :=
  ⟨⟨rfl, rfl, rfl⟩, fun _ h => by cases h⟩

/-- A step that is not one of the worker. -/
theorem Serving.frame (h : Serving n w l) (hevents : ∀ e ∈ l', e.owner ≠ some n)
    (hworker : w'.workers n = w.workers n ∨
      (w.workers n).pc = .unborn ∧ (w'.workers n).pc = .top)
    (htrackers : w.executing n → w'.impl.ftSequence = w.impl.ftSequence ∧
      (w'.impl.rdtSequence = w.impl.rdtSequence ∨
        w'.impl.rdtSequence = w.impl.rdtSequence.reset)) : Serving n w' (l ++ l') := by
  have hservice : service n (l ++ l') = service n l := by
    rw [service_append, Service.foldl_other hevents]
  have hfresh := h.fresh
  refine ⟨?_, by rw [hservice]; exact h.accepted⟩
  rw [hservice]
  rcases hworker with hsame | ⟨hunborn, htop⟩
  · rw [hsame]
    by_cases hrun : w.executing n
    · exact hfresh.reset (htrackers hrun).1 (htrackers hrun).2
    · exact hfresh.idle (eq_false_of_ne_true hrun)
  · rw [hunborn] at hfresh
    rw [htop]
    exact hfresh

theorem HealthyStream.before {records more : List RawRecord}
    (h : HealthyStream (records ++ more)) : HealthyStream records :=
  ⟨fun r hr => h.status r (List.mem_append_left _ hr), h.follows.left_of_append⟩

/-- What was heard stays heard. -/
theorem service_prefix (n : Nat) (l l' : List (Event D)) :
    ∃ more, (service n (l ++ l')).records = (service n l).records ++ more := by
  obtain ⟨xs, hxs⟩ := Service.foldl_heard (n := n) l' (service n l)
  exact ⟨xs.map (·.record), by rw [service_append]; simp [Service.records, hxs]⟩

section
variable [DecidableEq D] [Double D]

theorem Serving.step (hpolicy : config.recoveryPolicy = .failStop)
    (hrate : config.sampleRateLimitHz = 0) {a : Action D} (hv : Reachable config w l)
    (h : Serving n w l) (hok : StaysFresh config n w a)
    (hstep : Client.step config w a = some (w', l'))
    (hhealthy : HealthyStream (service n (l ++ l')).records) : Serving n w' (l ++ l') := by
  cases a with
  | run k c =>
    obtain ⟨r, hnext, -, rfl, rfl⟩ := step_run hstep
    by_cases hk : k = n
    · subst hk
      rw [service_append] at hhealthy
      obtain ⟨hfresh, haccepted⟩ := runNext_fresh hpolicy hrate hnext (hok.1 rfl) (hok.2 rfl)
        (hv.provenanced.sourced k) hhealthy h.fresh h.accepted
      refine ⟨?_, ?_⟩ <;> rw [service_append]
      · rw [World.applyRun_workers, Function.update_self]
        exact hfresh
      · exact haccepted
    · refine h.frame (fun e he howner => ?_) (.inl (Function.update_of_ne (Ne.symm hk) ..))
        fun hrun => absurd (hv.orderly.executing_unique hrun (executing_of_next hnext)) hk
      rcases runNext_owner hnext e he with hnone | hsome
      · simp [hnone] at howner
      · exact hk (Option.some.inj (hsome.symm.trans howner))
  | api t c =>
    obtain ⟨r, hnext, -, rfl, rfl⟩ := step_api hstep
    obtain ⟨hft, hrdt⟩ := apiNext_trackers hnext
    exact h.frame (fun e he => by simp [owner_of_byApi (apiNext_events hnext e he)])
      (hv.orderly.applyApi_worker config t r n) fun _ => ⟨hft, hrdt.imp id And.right⟩
  | call t call =>
    simp only [Client.step] at hstep
    (repeat' split at hstep) <;> cases hstep
    exact h.frame (by simp [Event.owner]) (.inl rfl) fun _ => ⟨rfl, .inl rfl⟩
  | tick | spurious =>
    cases hstep
    exact h.frame (by simp) (.inl rfl) fun _ => ⟨rfl, .inl rfl⟩

end

/-- The sample that a worker is about to hand over. -/
def RunPc.inHand : RunPc D → List (Sample D)
  | .session (.record (.copyCallback sample _)) | .session (.record (.inCallback sample _))
  | .session (.record (.commit sample _)) | .session (.record (.commitData sample _)) => [sample]
  | _ => []

theorem FreshRun.delivers {p : RunPc D} (h : FreshRun i g p) :
    g.heard.filterMap (·.converted) = g.handed ++ p.inHand := by
  have hserved : ∀ {p : RunPc D}, g.Served → p.inHand = [] →
      g.heard.filterMap (·.converted) = g.handed ++ p.inHand := fun hserved hp => by
    rw [hp, List.append_nil, hserved]
  cases p with
  | unborn | top => exact hserved h.2.1 rfl
  | session p =>
    have h := h.1
    cases p with
    | record p =>
      cases p with
      | observe => exact hserved h.2 rfl
      | account => exact hserved h.1 rfl
      | callbackFailed => exact h.elim
      | notifyFirst | notifyLifecycle => exact hserved h.2.2 rfl
      | copyCallback | inCallback | commit | commitData => exact h.2.2
    | socketFailed => exact hserved h rfl
    | _ => exact hserved h.2 rfl
  | close context | closeTransport context => cases context <;> exact hserved h.1 rfl
  | enterBackoff | backoffWait | backoffBlock | backoffAsleep => exact h.elim
  | _ => exact hserved h.1 rfl

theorem FreshRun.blames {p : RunPc D} (h : FreshRun i g p) :
    ∀ code ∈ g.published, g.heard ≠ [] → blamesRecord code = false := by
  have hnone : g.published = [] → ∀ code ∈ g.published, g.heard ≠ [] → blamesRecord code = false :=
    fun hnone code hcode => by rw [hnone] at hcode; cases hcode
  cases p with
  | unborn | top => exact hnone h.2.2
  | session => exact hnone h.2
  | close context | closeTransport context =>
    cases context with
    | session => exact hnone h.2.2
    | finish => exact h.2
  | decide | publish => exact hnone h.2.2
  | raised => exact hnone h.2
  | enterBackoff | backoffWait | backoffBlock | backoffAsleep => exact h.elim
  | _ => exact h.2

section
variable [DecidableEq D] [Double D]

/-- A run of the client in which worker `n` has been healthy. -/
theorem serving_of_runIf (hpolicy : config.recoveryPolicy = .failStop)
    (hrate : config.sampleRateLimitHz = 0) {clock : TimePoint}
    (h : (machine config).RunIf (StaysFresh config n) (World.initial clock) l w)
    (hhealthy : HealthyStream (service n l).records) : Serving n w l := by
  revert hhealthy
  refine h.invariant (I := fun w l => HealthyStream (service n l).records → Serving n w l)
    (fun _ => serving_initial clock) fun {w₁ l₁ a w₂ l₂} hrun hi hok hstep hhealthy => ?_
  have hv : Reachable config w₁ l₁ := ⟨clock, hrun⟩
  obtain ⟨more, hmore⟩ := service_prefix n l₁ l₂
  rw [hmore] at hhealthy
  exact (hi hhealthy.before).step hpolicy hrate hv hok hstep (hmore ▸ hhealthy)

end

/-! ## The records of a run -/

theorem Service.foldl_unheard {l : List (Event D)} (h : ∀ x, .processed n x ∉ l) (g : Service D) :
    (l.foldl (Service.read n) g).heard = g.heard := by
  induction l generalizing g with
  | nil => rfl
  | cons e l ih =>
    have hsame : (g.read n e).heard = g.heard := by
      cases e with
      | processed k x =>
        have hk : k ≠ n := by
          rintro rfl
          exact h x List.mem_cons_self
        simp [Service.read, hk]
      | delivered | published => simp only [Service.read]; split <;> rfl
      | _ => rfl
    rw [List.foldl_cons, ih fun x hx => h x (List.mem_cons_of_mem _ hx), hsame]

theorem Intake.run_decoded (taken : Intake) (datagram : List UInt8) :
    ({ taken with session := taken.session ++ [datagram] } : Intake).run.filterMap decodeRecord =
      taken.run.filterMap decodeRecord ++ (decodeRecord datagram).toList := by
  cases h : decodeRecord datagram <;> simp [Intake.run, h]

section
variable [DecidableEq D] [Double D] {taken : Intake}

theorem runNext_unheard {p : RunPc D} (hnext : runNext config w n c worker p = some r)
    (hp : ∀ record receivedAt rdt ft, p ≠ .session (.record (.account record receivedAt rdt ft)))
    (g : Service D) : (r.events.foldl (Service.read n) g).records = g.records := by
  rw [Service.records, Service.foldl_unheard fun x hx => hp _ _ _ _ (runNext_processed hnext hx).2.1]
  rfl

omit [DecidableEq D] [Double D] in
/-- Only a datagram that is looked at adds to those of the run. -/
theorem intake_run {p : RunPc D} (hp : ∀ datagram, p ≠ .session (.received datagram)) :
    (intake taken w p).run = taken.run := by
  cases p with
  | top =>
    simp only [intake]
    split
    · rfl
    · exact List.append_nil _
  | session q =>
    cases q with
    | received datagram => exact absurd rfl (hp datagram)
    | _ => rfl
  | _ => rfl

/-- Only the decoding of a datagram puts a record into the hand. -/
theorem runNext_emptyHanded {p : RunPc D} (hnext : runNext config w n c worker p = some r)
    (hp : p.recordInHand = []) (hreceived : ∀ datagram, p ≠ .session (.received datagram)) :
    r.worker.pc.recordInHand = [] := by
  cases p with
  | session q =>
    cases q with
    | received datagram => exact absurd rfl (hreceived datagram)
    | stamp | valid => cases hp
    | record q =>
      cases q with
      | observe | account => cases hp
      | _ =>
        simp only [runNext, sessionNext, recordNext] at hnext
        (repeat' split at hnext) <;> cases hnext <;> first | rfl | exact afterRecord_inHand
    | pollCheck =>
      cases hnext
      dsimp only
      split <;> rfl
    | _ =>
      simp only [runNext, sessionNext] at hnext
      (repeat' split at hnext) <;> cases hnext <;> rfl
  | closeTransport context => cases hnext; cases context <;> rfl
  | raised message | finalFaulted =>
    cases hnext
    dsimp only
    split <;> rfl
  | _ =>
    simp only [runNext] at hnext
    (repeat' split at hnext) <;> cases hnext <;> rfl

/-- A record comes into the hand where a datagram is decoded, and leaves it where it is accounted
for. -/
theorem runNext_decodes {p : RunPc D} (hnext : runNext config w n c worker p = some r)
    (hok : p.Fresh config w.impl) (hsourced : Sourced w.impl v p)
    (h : taken.run.filterMap decodeRecord = g.records ++ p.recordInHand) :
    (intake taken w p).run.filterMap decodeRecord =
      (r.events.foldl (Service.read n) g).records ++ r.worker.pc.recordInHand := by
  by_cases haccount : ∃ record receivedAt rdt ft,
      p = .session (.record (.account record receivedAt rdt ft))
  · obtain ⟨record, receivedAt, rdt, ft, rfl⟩ := haccount
    obtain ⟨-, configuration, _, -, hconfiguration⟩ := hsourced
    have hnext : recordNext config w n c worker (.account record receivedAt rdt ft) = some r := hnext
    obtain ⟨x, hx, rfl, hhand⟩ := accountNext_heard hconfiguration hnext g
    rw [hhand, hx, Service.records_processed, List.append_nil, intake_run (by simp)]
    exact h
  rw [runNext_unheard hnext (fun a b d e hpc => haccount ⟨a, b, d, e, hpc⟩) g]
  by_cases hreceived : ∃ datagram, p = .session (.received datagram)
  · obtain ⟨datagram, rfl⟩ := hreceived
    have h : taken.run.filterMap decodeRecord = g.records := h.trans (List.append_nil _)
    simp only [runNext, sessionNext] at hnext
    split at hnext
    · rename_i hstop
      cases hnext
      simp [intake, hstop, h, RunPc.recordInHand]
    rename_i hstop
    have hstop : w.impl.stopping = false := eq_false_of_ne_true hstop
    split at hnext
    · rename_i hempty
      cases hnext
      simp [intake, hempty, h, RunPc.recordInHand]
    rename_i hne
    simp only [intake, hstop, hne, Bool.or_false, decide_false, Bool.false_eq_true, if_false,
      Intake.run_decoded, h]
    split at hnext <;> cases hnext <;> simp [RunPc.recordInHand, *]
  · rw [intake_run fun datagram hpc => hreceived ⟨datagram, hpc⟩, h]
    congr 1
    by_cases hhand : p.recordInHand = []
    · rw [hhand, runNext_emptyHanded hnext hhand fun datagram hpc => hreceived ⟨datagram, hpc⟩]
    cases p with
    | session q =>
      cases q with
      | stamp record => cases hnext; rfl
      | valid record receivedAt =>
        simp only [runNext, sessionNext] at hnext
        split at hnext <;> cases hnext
        · exact absurd ‹_› hok
        · rfl
      | record q =>
        cases q with
        | observe record receivedAt => cases hnext; rfl
        | account => exact absurd ⟨_, _, _, _, rfl⟩ haccount
        | _ => exact absurd rfl hhand
      | _ => exact absurd rfl hhand
    | _ => exact absurd rfl hhand

/-- What a worker has processed, and the record in its hand, are the records of the datagrams it has
looked at. -/
def World.decodes (w : World D) (g : Nat → Intake) (l : List (Event D)) (n : Nat) : Prop :=
  (g n).run.filterMap decodeRecord = (service n l).records ++ (w.workers n).pc.recordInHand

omit [DecidableEq D] [Double D] in
theorem World.decodes.of_same {g : Nat → Intake} (h : w.decodes g l n)
    (hevents : ∀ e ∈ l', e.owner ≠ some n)
    (hworker : w'.workers n = w.workers n ∨
      (w.workers n).pc = .unborn ∧ (w'.workers n).pc = .top) : w'.decodes g (l ++ l') n := by
  rw [decodes, service_append, Service.foldl_other hevents]
  rcases hworker with hsame | ⟨hunborn, htop⟩
  · rw [hsame]
    exact h
  · rw [decodes, hunborn] at h
    rw [htop]
    exact h

theorem World.decodes.step {g g' : Nat → Intake} {a : Action D} (hv : Reachable config w l)
    (h : w.decodes g l n) (hok : FreshStart config n w a)
    (hstep : (intakeMachine config).step (w, g) a = some ((w', g'), l')) :
    w'.decodes g' (l ++ l') n := by
  obtain ⟨hbase, rfl⟩ := Machine.withGhost_step.mp hstep
  have hbase : Client.step config w a = some (w', l') := hbase
  cases a with
  | run k c =>
    obtain ⟨r, hnext, -, rfl, rfl⟩ := step_run hbase
    by_cases hk : k = n
    · subst hk
      have hnew := runNext_decodes hnext (hok rfl) (hv.provenanced.sourced k) h
      rw [World.decodes, World.applyRun_workers, Function.update_self, service_append]
      simp only [updateIntake, Function.update_self]
      exact hnew
    · have hsame : updateIntake g w (.run k c) n = g n := Function.update_of_ne (Ne.symm hk) ..
      have hother : (w.applyRun k r).workers n = w.workers n := Function.update_of_ne (Ne.symm hk) ..
      rw [World.decodes, hsame]
      refine h.of_same (fun e he howner => ?_) (.inl hother)
      rcases runNext_owner hnext e he with hnone | hsome
      · simp [hnone] at howner
      · exact hk (Option.some.inj (hsome.symm.trans howner))
  | api t c =>
    obtain ⟨r, hnext, -, rfl, rfl⟩ := step_api hbase
    exact h.of_same (fun e he => by simp [owner_of_byApi (apiNext_events hnext e he)])
      (hv.orderly.applyApi_worker config t r n)
  | call t call =>
    simp only [Client.step] at hbase
    (repeat' split at hbase) <;> cases hbase
    exact h.of_same (by simp [Event.owner]) (.inl rfl)
  | tick | spurious =>
    cases hbase
    exact h.of_same (by simp) (.inl rfl)

theorem decodes_of_runIf {s : World D × (Nat → Intake)}
    (h : (intakeMachine config).RunIf (fun s => StaysFresh config n s.1)
      (World.initial clock, fun _ => {}) l s) : s.1.decodes s.2 l n := by
  refine h.invariant (I := fun s l => s.1.decodes s.2 l n) rfl ?_
  rintro ⟨w₁, g₁⟩ l₁ a ⟨w₂, g₂⟩ l₂ hrun hi hok hstep
  exact hi.step ⟨clock, hrun.eraseGhost⟩ hok.2 hstep

/-- On every run under `FailStop` without a rate limit, after any earlier runs: when the records that
a worker decodes are a healthy stream, its callback does not throw, its first record is ahead of the
baseline that the FT tracker has kept, its samples are finite and the receive timeouts after its
records are in range, then each record is processed, accepted, converted and delivered, up to the
one in its hand; the handling of a record leads back to the loop of the session; and no fault is
latched on account of a record. -/
theorem fresh_start_served (hpolicy : config.recoveryPolicy = .failStop)
    (hrate : config.sampleRateLimitHz = 0) {clock : TimePoint} (n : Nat) {g : Nat → Intake}
    (h : (intakeMachine config).RunIf (fun s => StaysFresh config n s.1)
      (World.initial clock, fun _ => {}) l (w, g))
    (hhealthy : HealthyStream ((g n).run.filterMap decodeRecord)) :
    (g n).run.filterMap decodeRecord =
        (service n l).records ++ (w.workers n).pc.recordInHand ∧
      (∀ x ∈ (service n l).heard, x.Accepted) ∧
      (service n l).heard.filterMap (·.converted) = (service n l).handed ++ (w.workers n).pc.inHand ∧
      (∀ c w' l', (w.workers n).pc.handlesRecord = true → StaysFresh config n w (.run n c) →
        step config w (.run n c) = some (w', l') →
        (w'.workers n).pc.handlesRecord = true ∨ (w'.workers n).pc = .session .loop) ∧
      ∀ code ∈ (service n l).published, (service n l).heard ≠ [] → blamesRecord code = false := by
  have hv : Reachable config w l := ⟨clock, h.run.eraseGhost⟩
  have hdecodes : w.decodes g l n := decodes_of_runIf h
  have hserving := serving_of_runIf hpolicy hrate h.eraseGhost (hdecodes ▸ hhealthy).before
  refine ⟨hdecodes, hserving.accepted, hserving.fresh.delivers, fun c w' l' hp hok hstep => ?_,
    hserving.fresh.blames⟩
  obtain ⟨r, hnext, -, rfl, rfl⟩ := step_run hstep
  rw [World.applyRun_workers, Function.update_self]
  have hreturns := hok.1 rfl
  have hfresh := hok.2 rfl
  have hsourced := hv.provenanced.sourced n
  have hrun := hserving.fresh
  have hnew := runNext_decodes hnext hfresh hsourced hdecodes
  cases hpc : (w.workers n).pc with
  | session q =>
    rw [hpc] at hnext hreturns hfresh hsourced hrun hnew
    cases q with
    | stamp record => cases hnext; exact .inl rfl
    | valid record receivedAt =>
      simp only [runNext, sessionNext] at hnext
      split at hnext <;> cases hnext
      · exact absurd ‹_› hfresh
      · exact .inl rfl
    | record q =>
      rw [intake_run (by simp)] at hnew
      exact (recordNext_fresh hrate hnext hreturns hfresh hsourced (hnew ▸ hhealthy).before hrun.1
        hrun.2 hserving.accepted).2.2
    | _ => simp [hpc, RunPc.handlesRecord] at hp
  | _ => simp [hpc, RunPc.handlesRecord] at hp

end

/-! ## The first record -/

theorem ftObserve_stale {ft : FtSequenceTracker} {current : UInt32} (h : ¬ FtAhead ft current)
    (hcandidate : ft.hasRestartCandidate = false) :
    (ft.observe current).2 = .stall ∨ (ft.observe current).2 = .backward := by
  have hlast : ft.hasLast = true := by
    by_contra hlast
    exact h fun hl => absurd hl hlast
  have hbehind : current = ft.previous ∨ ¬ current - ft.previous < halfRange := by
    by_contra hahead
    obtain ⟨hne, hlt⟩ := not_or.mp hahead
    exact h fun _ => ⟨hne, not_not.mp hlt⟩
  unfold FtSequenceTracker.observe
  rcases hbehind with heq | hbehind
  · simp [hlast, heq]
  · have hconfirm : ft.confirmsRestart current = false := by
      simp [FtSequenceTracker.confirmsRestart, hcandidate]
    by_cases heq : current = ft.previous
    · simp [hlast, heq]
    · simp [hlast, heq, hbehind, hconfirm]

/-- The first record of a run is served exactly when it is ahead of the kept baseline and its sample
is finite. -/
theorem handleRecord_first [Double D] (hrate : config.sampleRateLimitHz = 0)
    {record : RawRecord} {receivedAt : TimePoint} {configuration : SensorConfiguration D}
    (hconfiguration : i.health.sensorConfiguration = some configuration)
    (hstatus : record.status = 0) (hrdt : i.rdtSequence.hasLast = false)
    (hcandidate : i.ftSequence.hasRestartCandidate = false) :
    (∃ i', handleRecord config i record receivedAt none =
      some (i', none, some (makeSample configuration record receivedAt))) ↔
      FtAhead i.ftSequence record.ftSequence ∧
        finiteAxes (makeSample configuration record receivedAt) = true := by
  have hkept : (i.observe record).1.health.sensorConfiguration = some configuration :=
    hconfiguration
  have hkind : (i.observe record).2.1.kind = .first := by
    simp [Impl.observe, RdtSequenceTracker.observe, hrdt]
  simp only [handleRecord, Impl.account, hkept, Impl.verdict, hstatus, hkind]
  by_cases hahead : FtAhead i.ftSequence record.ftSequence
  · have hft : (i.observe record).2.2 = .first ∨ (i.observe record).2.2 = .forward :=
      (ftObserve_ahead hahead).1
    rw [healthy_verdict hrate (.inl rfl) hft]
    cases hfinite : finiteAxes (makeSample configuration record receivedAt) <;>
      simp [dispose, hfinite, hahead]
  · have hstale : (recordVerdict config (i.observe record).1.lastDeliveryAt receivedAt .first
        (i.observe record).2.2 (classifyStatus 0)).deliver = false := by
      rcases ftObserve_stale hahead hcandidate with hft | hft <;>
        simp [recordVerdict, Impl.observe, hft, ftDiscontinuity]
    simp [dispose, hstale, hahead]

/-! ## A power-cycled sensor -/

instance (a b : RawRecord) : Decidable (Follows a b) :=
  decidable_of_iff (b.rdtSequence - a.rdtSequence = 1 ∧
    b.ftSequence ≠ a.ftSequence ∧ b.ftSequence - a.ftSequence < halfRange)
    ⟨fun h => ⟨h.1, h.2⟩, fun h => ⟨h.rdt, h.ft⟩⟩

instance (records : List RawRecord) : Decidable (HealthyStream records) :=
  decidable_of_iff ((∀ r ∈ records, r.status = 0) ∧ records.IsChain Follows)
    ⟨fun h => ⟨h.1, h.2⟩, fun h => ⟨h.status, h.follows⟩⟩

instance (t : FtSequenceTracker) (current : UInt32) : Decidable (FtAhead t current) :=
  inferInstanceAs (Decidable (_ → _))

/-- The assumption on the callback, tested. -/
def World.callbackReturns (n : Nat) (w : World D) : Action D → Bool
  | .run k (.fails _) => !(k = n && (w.workers k).pc.calls)
  | _ => true

theorem callbackReturns_of_test {a : Action D} (h : w.callbackReturns n a = true) :
    CallbackReturns n w a := by
  cases a with
  | run k c =>
    rintro rfl hcalls message rfl
    simp [World.callbackReturns, hcalls] at h
  | _ => trivial

/-- The assumption on the first record, the samples and the receive timeouts, tested. -/
def RunPc.fresh [Double D] (config : Config D) (i : Impl D) : RunPc D → Bool
  | .session (.valid _ receivedAt) => (checkedDeadline receivedAt config.receiveTimeout).isSome
  | .session (.record (.observe record _)) =>
    i.rdtSequence.hasLast || FtAhead i.ftSequence record.ftSequence
  | .session (.record (.account record receivedAt ..)) =>
    i.health.sensorConfiguration.all fun configuration =>
      finiteAxes (makeSample configuration record receivedAt)
  | _ => true

theorem RunPc.Fresh.of_test [Double D] {p : RunPc D} (h : p.fresh config i = true) :
    p.Fresh config i := by
  cases p with
  | session p =>
    cases p with
    | record p =>
      cases p with
      | observe record receivedAt =>
        intro hfresh
        simpa [RunPc.fresh, hfresh] using h
      | account record receivedAt rdt ft =>
        intro configuration hconfiguration
        simpa [RunPc.fresh, hconfiguration] using h
      | _ => trivial
    | valid record receivedAt =>
      intro hnone
      simp [RunPc.fresh, hnone] at h
    | _ => trivial
  | _ => trivial

def World.freshStart [Double D] (config : Config D) (n : Nat) (w : World D) : Action D → Bool
  | .run k c => w.callbackReturns n (.run k c) && (w.workers k).pc.fresh config w.impl
  | _ => true

theorem staysFresh_of_test [Double D] {a : Action D} (h : w.freshStart config n a = true) :
    StaysFresh config n w a := by
  cases a with
  | run k c =>
    obtain ⟨hreturns, hfresh⟩ := Bool.and_eq_true_iff.mp h
    exact ⟨callbackReturns_of_test hreturns, by rintro rfl; exact .of_test hfresh⟩
  | _ => exact ⟨trivial, trivial⟩

/-- A run that receives one record and is stopped, and the start of a second one. -/
def restartActions : List (Action Rat) :=
  startActions (.client 0) ++ openActions 0 ++ receiveActions 0 (plainRecord 1 100) ++
    .call (.client 1) .stop :: stopActions (.client 1) ++ List.replicate 11 (.run 0 .go) ++
    List.replicate 6 (.api (.client 1) .go) ++ startActions (.client 0) ++ openActions 1

/-- Between the runs the sensor has begun to count again. -/
def powerCycledActions : List (Action Rat) :=
  restartActions ++ (receiveActions 1 (plainRecord 1 1)).take 11 ++
    .run 1 .succeeds :: List.replicate 3 (.run 1 .go)

/-- Between the runs the sensor has continued to count. -/
def continuedActions : List (Action Rat) :=
  restartActions ++ receiveActions 1 (plainRecord 1 101) ++
    receiveActions 1 (plainRecord 2 102)

def continuedClient : (World Rat × (Nat → Intake)) × List (Event Rat) :=
  (intakeMachine (demoConfig .failStop)).perform (World.initial 1, fun _ => {}) continuedActions

def powerCycledClient : (World Rat × (Nat → Intake)) × List (Event Rat) :=
  (intakeMachine (demoConfig .failStop)).perform (World.initial 1, fun _ => {}) powerCycledActions

theorem fresh_start_served_continued :
    ((continuedClient.1.2 1).run.filterMap decodeRecord).map (·.ftSequence) = [101, 102] ∧
      (service 1 continuedClient.2).handed.map (·.ftSequence) = [101, 102] ∧
      ∀ x ∈ (service 1 continuedClient.2).heard, x.Accepted := by
  have hrun : (intakeMachine (demoConfig .failStop)).RunIf
      (fun s => StaysFresh (demoConfig .failStop) 1 s.1) (World.initial 1, fun _ => {})
      continuedClient.2 (continuedClient.1.1, continuedClient.1.2) :=
    Machine.runIf_perform (fun s => s.1.freshStart (demoConfig .failStop) 1) (by decide +kernel)
      fun _ _ => staysFresh_of_test
  exact ⟨by decide +kernel, by decide +kernel,
    (fresh_start_served rfl rfl 1 hrun (by decide +kernel)).2.1⟩

/-- The first record of the second run is healthy and faults the client. -/
theorem fresh_start_faults :
    (intakeMachine (demoConfig .failStop)).RunIf (fun s => CallbackReturns 1 s.1)
        (World.initial 1, fun _ => {}) powerCycledClient.2 powerCycledClient.1 ∧
      HealthyStream ((powerCycledClient.1.2 1).run.filterMap decodeRecord) ∧
      (service 1 powerCycledClient.2).heard.map (·.converted) = [none] ∧
      (service 1 powerCycledClient.2).published = [.ftBackward] := by
  exact ⟨Machine.runIf_perform (fun s => s.1.callbackReturns 1) (by decide +kernel)
      fun _ _ => callbackReturns_of_test,
    by decide +kernel, by decide +kernel, by decide +kernel⟩

end NetFT.Client
