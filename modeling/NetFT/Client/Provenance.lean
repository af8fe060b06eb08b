import NetFT.Client.Commands
import NetFT.Client.Faults
import NetFT.Client.Ledger

/-! Where the calibration of a sample comes from. A ghost reads the history: what
`configuration_for_session` has returned in the current session, and for every sample that was
passed to the callback what it had returned in the session of the sample. The client converts with
the configuration in its health record, which is the one of the session from `apply_configuration`
on (`Sourced`), and its revision tells calibrations apart (`Provenance.Consistent`). -/

namespace NetFT.Client
open Detail Library

variable {D : Type}

/-- A sample that was passed to the callback, with the configuration that its session was given,
and the records of the session up to then. -/
structure Conversion (D : Type) where
  sample : Sample D
  configuration : Option (SensorConfiguration D)
  records : List (Processed D)

namespace Conversion

def revision (x : Conversion D) : Nat := x.sample.configurationRevision

def calibration (x : Conversion D) : Option (Calibration D) :=
  x.configuration.map (·.calibration)

/-- The sample has the units of the calibration, and its axes are the counts of the record over the
divisors of the calibration. -/
structure Calibrated [Double D] (calibration : Calibration D) (record : RawRecord)
    (sample : Sample D) : Prop where
  forceUnit : sample.forceUnit = calibration.forceUnit
  torqueUnit : sample.torqueUnit = calibration.torqueUnit
  force : sample.force = [record.fx, record.fy, record.fz].map fun count =>
    Double.div (Double.ofInt count.toInt) calibration.countsPerForceUnit
  torque : sample.torque = [record.tx, record.ty, record.tz].map fun count =>
    Double.div (Double.ofInt count.toInt) calibration.countsPerTorqueUnit

/-- The sample is a record of the session, converted with the configuration of the session. -/
def Faithful [Double D] (x : Conversion D) : Prop :=
  ∃ configuration, x.configuration = some configuration ∧ ∃ r ∈ x.records,
    x.sample = makeSample { configuration with revision := x.revision } r.record r.receivedAt ∧
      Calibrated configuration.calibration r.record x.sample

theorem calibrated_makeSample [Double D] (configuration : SensorConfiguration D)
    (record : RawRecord) (receivedAt : TimePoint) :
    Calibrated configuration.calibration record (makeSample configuration record receivedAt) :=
  ⟨rfl, rfl, rfl, rfl⟩

/-- The revision does not decrease, and stands for the calibration. -/
def Agrees (x y : Conversion D) : Prop :=
  x.revision ≤ y.revision ∧ (x.revision = y.revision → x.calibration = y.calibration)

end Conversion

/-- What the history says about the current session, and the conversions of all sessions. -/
structure Provenance (D : Type) where
  configuration : Option (SensorConfiguration D) := none
  discoveryFailed : Bool := false
  connected : Bool := false
  records : List (Processed D) := []
  conversions : List (Conversion D) := []

namespace Provenance

def next (g : Provenance D) : Event D → Provenance D
  | .sessionBegan _ => { conversions := g.conversions }
  | .discovered _ configuration => { g with configuration := some configuration }
  | .discoveryFailed _ => { g with discoveryFailed := true }
  | .connected .. => { g with connected := true }
  | .processed _ x => { g with records := g.records ++ [x] }
  | .invoked _ sample =>
    { g with conversions := g.conversions ++
        [{ sample, configuration := g.configuration, records := g.records }] }
  | _ => g

/-- The events that the ghost reads. -/
def heeds : Event D → Bool
  | .sessionBegan _ | .discovered .. | .discoveryFailed _ | .connected .. | .processed ..
  | .invoked .. => true
  | _ => false

theorem foldl_unheeded {l : List (Event D)} (h : ∀ e ∈ l, heeds e = false) (g : Provenance D) :
    l.foldl next g = g := by
  induction l with
  | nil => rfl
  | cons e l ih =>
    have hsame : g.next e = g := by
      have he := h e List.mem_cons_self
      cases e <;> first | rfl | cases he
    rw [List.foldl_cons, hsame]
    exact ih fun e' he' => h e' (List.mem_cons_of_mem _ he')

theorem heeds_of_owner {e : Event D} (h : e.owner = none) : heeds e = false := by
  cases e <;> first | rfl | cases h

end Provenance

def provenance (l : List (Event D)) : Provenance D := l.foldl Provenance.next {}

theorem provenance_append (l l' : List (Event D)) :
    provenance (l ++ l') = l'.foldl Provenance.next (provenance l) := List.foldl_append

/-- The health record has the configuration of the session, with its revision. -/
def Applied (i : Impl D) (g : Provenance D) : Prop :=
  g.discoveryFailed = false ∧ ∃ configuration revision, g.configuration = some configuration ∧
    i.health.sensorConfiguration = some { configuration with revision }

/-- What a worker at the given position knows about its session. -/
def Sourced [Double D] (i : Impl D) (g : Provenance D) : RunPc D → Prop
  | .session .connecting | .session .checkBeforeDiscovery | .session .discover =>
    g.discoveryFailed = false ∧ g.connected = false
  | .session (.discoverFailed _) => True
  | .session (.apply configuration) =>
    g.discoveryFailed = false ∧ g.configuration = some configuration
  | .session (.record (.copyCallback sample _)) =>
    Applied i g ∧ ∃ configuration, i.health.sensorConfiguration = some configuration ∧
      ∃ r ∈ g.records, sample = makeSample configuration r.record r.receivedAt
  | .session _ => Applied i g
  | _ => True

/-- The relation of the history and the health record. -/
structure Provenance.Consistent [Double D] (g : Provenance D) (i : Impl D) : Prop where
  exclusive : g.discoveryFailed = true → g.connected = false
  faithful : ∀ x ∈ g.conversions, x.Faithful
  agrees : g.conversions.Pairwise Conversion.Agrees
  bounded : ∀ x ∈ g.conversions, ∃ configuration,
    i.health.sensorConfiguration = some configuration ∧ x.revision ≤ configuration.revision ∧
      (x.revision = configuration.revision → x.calibration = some configuration.calibration)
  counted : ∀ configuration, i.health.sensorConfiguration = some configuration →
    i.health.calibrationChangeCount + 1 = configuration.revision
  uncounted : i.health.sensorConfiguration = none → i.health.calibrationChangeCount = 0

variable {config : Config D} {w w' : World D} {t : Tid} {n k : Nat} {c : Choice D}
  {worker : Worker D} {r : RunNext D} {l l' : List (Event D)} {g g' : Provenance D} {i i' : Impl D}

/-- The part of the health record that is about the configuration. -/
structure SameConfiguration (i i' : Impl D) : Prop where
  configuration : i'.health.sensorConfiguration = i.health.sensorConfiguration
  changes : i'.health.calibrationChangeCount = i.health.calibrationChangeCount

theorem SameConfiguration.of_lifetime (h : lifetime i'.health = lifetime i.health) :
    SameConfiguration i i' where
  configuration :=
    show (lifetime i'.health).sensorConfiguration = (lifetime i.health).sensorConfiguration from
      congrArg _ h
  changes :=
    show (lifetime i'.health).calibrationChangeCount = (lifetime i.health).calibrationChangeCount from
      congrArg _ h

theorem Applied.same (h : Applied i g) (hsame : SameConfiguration i i') : Applied i' g := by
  obtain ⟨hfailed, configuration, revision, hg, hi⟩ := h
  exact ⟨hfailed, configuration, revision, hg, hsame.configuration.trans hi⟩

section
variable [Double D]

theorem Sourced.same {p : RunPc D} (h : Sourced i g p) (hsame : SameConfiguration i i') :
    Sourced i' g p := by
  cases p with
  | session q =>
    cases q with
    | connecting | checkBeforeDiscovery | discover | discoverFailed | apply => exact h
    | record q =>
      cases q with
      | copyCallback sample outcome =>
        obtain ⟨happlied, configuration, hi, hrecord⟩ := h
        exact ⟨happlied.same hsame, configuration, hsame.configuration.trans hi, hrecord⟩
      | _ => exact Applied.same h hsame
    | _ => exact Applied.same h hsame
  | _ => trivial

theorem Provenance.Consistent.same (h : g.Consistent i) (hsame : SameConfiguration i i') :
    g.Consistent i' where
  exclusive := h.exclusive
  faithful := h.faithful
  agrees := h.agrees
  bounded x hx := by rw [hsame.configuration]; exact h.bounded x hx
  counted configuration hc := by
    rw [hsame.changes]
    exact h.counted configuration (hsame.configuration ▸ hc)
  uncounted hn := by
    rw [hsame.changes]
    exact h.uncounted (hsame.configuration ▸ hn)

end

/-! ## One step -/

/-- The positions at which the configuration is read or changed, or something is reported that the
ghost reads. -/
def RunPc.configures : RunPc D → Bool
  | .top | .session .discover | .session (.apply _) | .session .connect
  | .session (.record (.account ..)) | .session (.record (.copyCallback ..)) => true
  | _ => false

theorem sameCalibration_eq [DecidableEq D] {left right : Calibration D}
    (h : Impl.sameCalibration left right = true) : left = right := by
  obtain ⟨⟨⟨hforce, htorque⟩, hforceUnit⟩, htorqueUnit⟩ := by
    simpa [Impl.sameCalibration] using h
  cases left
  cases right
  simp_all

/-- A sample is passed to the callback: it is one more conversion. -/
theorem Provenance.Consistent.invoke [Double D] (h : g.Consistent i) (happlied : Applied i g)
    {configuration : SensorConfiguration D} (hi : i.health.sensorConfiguration = some configuration)
    {x : Processed D} (hx : x ∈ g.records) (n : Nat) :
    (g.next (.invoked n (makeSample configuration x.record x.receivedAt))).Consistent i := by
  obtain ⟨-, source, revision, hg, hsource⟩ := happlied
  obtain rfl := Option.some.inj (hi.symm.trans hsource)
  refine ⟨h.exclusive, fun y hy => ?_, ?_, fun y hy => ?_, h.counted, h.uncounted⟩
  · rcases List.mem_append.mp hy with hy | hy
    · exact h.faithful y hy
    · rw [List.mem_singleton.mp hy]
      exact ⟨source, hg, x, hx, rfl, Conversion.calibrated_makeSample { source with revision } _ _⟩
  · refine List.pairwise_append.mpr ⟨h.agrees, List.pairwise_singleton _ _, fun y hy z hz => ?_⟩
    obtain ⟨d, hd, hle, heq⟩ := h.bounded y hy
    obtain rfl := Option.some.inj (hsource.symm.trans hd)
    rw [List.mem_singleton.mp hz]
    refine ⟨hle, fun hrevision => (heq hrevision).trans ?_⟩
    simp only [Conversion.calibration, hg, Option.map_some]
  · rcases List.mem_append.mp hy with hy | hy
    · exact h.bounded y hy
    · rw [List.mem_singleton.mp hy]
      exact ⟨_, hsource, Nat.le_refl _, fun _ => by
        simp only [Conversion.calibration, hg, Option.map_some]⟩

theorem afterRecord_provenance {outcome : Option SessionResult} {events : List (Event D)} :
    (afterRecord i worker n outcome events).events.foldl Provenance.next g =
      events.foldl Provenance.next g := by
  cases outcome with
  | none => rfl
  | some result =>
    simp only [afterRecord, endSession, List.foldl_append]
    rfl

theorem afterRecord_sourced [Double D] {outcome : Option SessionResult} {events : List (Event D)}
    (h : Applied i' g) : Sourced i' g (afterRecord i worker n outcome events).worker.pc := by
  cases outcome with
  | none => exact h
  | some result => trivial

section
variable [DecidableEq D] [Double D]

theorem runNext_unheeded {p : RunPc D} (hnext : runNext config w n c worker p = some r)
    (hp : p.configures = false) : ∀ e ∈ r.events, Provenance.heeds e = false := by
  intro e he
  have hat := runNext_reportedAt hnext e he
  cases e with
  | sessionBegan | discovered | discoveryFailed | connected => rw [hat] at hp; cases hp
  | invoked => obtain ⟨_, hpc⟩ := hat; rw [hpc] at hp; cases hp
  | processed => rw [(runNext_processed hnext he).2.1] at hp; cases hp
  | _ => rfl

theorem runNext_configuration {p : RunPc D} (hnext : runNext config w n c worker p = some r)
    (hp : p.configures = false) : SameConfiguration w.impl r.impl := by
  cases hlife : p.writesLifetime with
  | false => exact .of_lifetime (runNext_lifetime hnext hlife)
  | true =>
    cases p with
    | session q =>
      cases q with
      | record q =>
        cases q with
        | callbackFailed message outcome => cases hnext; rw [afterRecord_impl]; exact ⟨rfl, rfl⟩
        | commitData sample outcome => cases hnext; exact ⟨rfl, rfl⟩
        | account => cases hp
        | _ => cases hlife
      | timedOut | malformed =>
        simp only [runNext, sessionNext] at hnext
        split at hnext <;> cases hnext <;> exact ⟨rfl, rfl⟩
      | apply => cases hp
      | _ => cases hlife
    | enterBackoff message => cases hnext; exact ⟨rfl, rfl⟩
    | _ => cases hlife

/-- Where the worker goes, it knows no less about its session. -/
theorem runNext_sourced {p : RunPc D} (hnext : runNext config w n c worker p = some r)
    (hp : p.configures = false) (h : Sourced i g p) : Sourced i g r.worker.pc := by
  cases p with
  | session q =>
    cases q with
    | record q =>
      cases q with
      | account | copyCallback => cases hp
      | observe record receivedAt => cases hnext; exact h
      | _ =>
        simp only [runNext, sessionNext, recordNext] at hnext
        (repeat' split at hnext) <;> cases hnext <;>
          first | exact h | exact afterRecord_sourced h
    | discover | apply | connect => cases hp
    | pollCheck =>
      cases hnext
      dsimp only
      split <;> exact h
    | _ =>
      simp only [runNext, sessionNext] at hnext
      (repeat' split at hnext) <;> cases hnext <;> first | exact h | trivial
  | closeTransport context => cases hnext; cases context <;> trivial
  | raised message | finalFaulted => cases hnext; dsimp only; split <;> trivial
  | top => cases hp
  | _ =>
    simp only [runNext] at hnext
    (repeat' split at hnext) <;> cases hnext <;> trivial

/-- A configuration is applied: the revision stays if the calibration does. -/
theorem Provenance.Consistent.apply (h : g.Consistent i) (hfailed : g.discoveryFailed = false)
    {configuration : SensorConfiguration D} (hg : g.configuration = some configuration) :
    g.Consistent (i.applyConfiguration configuration) ∧
      Applied (i.applyConfiguration configuration) g := by
  cases hprevious : i.health.sensorConfiguration with
  | none =>
    have hi : i.applyConfiguration configuration = { i with health := { i.health with
        sensorConfiguration := some { configuration with revision := 1 } } } := by
      simp only [Impl.applyConfiguration, hprevious]
    rw [hi]
    refine ⟨⟨h.exclusive, h.faithful, h.agrees, fun x hx => ?_, fun d hd => ?_, fun h => by cases h⟩,
      hfailed, configuration, 1, hg, rfl⟩
    · obtain ⟨d, hd, -⟩ := h.bounded x hx
      rw [hprevious] at hd
      cases hd
    · cases hd
      exact congrArg (· + 1) (h.uncounted hprevious)
  | some previous =>
    have hcounted := h.counted previous hprevious
    have hbounded : ∀ x ∈ g.conversions, x.revision ≤ previous.revision ∧
        (x.revision = previous.revision → x.calibration = some previous.calibration) := by
      intro x hx
      obtain ⟨d, hd, hx⟩ := h.bounded x hx
      rw [hprevious] at hd
      cases hd
      exact hx
    cases hsame : Impl.sameCalibration previous.calibration configuration.calibration with
    | true =>
      have hi : i.applyConfiguration configuration = { i with health := { i.health with
          sensorConfiguration := some { configuration with revision := previous.revision } } } := by
        simp only [Impl.applyConfiguration, hprevious, hsame, if_true]
      rw [hi]
      refine ⟨⟨h.exclusive, h.faithful, h.agrees, fun x hx => ⟨_, rfl, ?_⟩, fun d hd => ?_,
        fun h => by cases h⟩, hfailed, configuration, previous.revision, hg, rfl⟩
      · obtain ⟨hle, heq⟩ := hbounded x hx
        exact ⟨hle, fun hrevision => sameCalibration_eq hsame ▸ heq hrevision⟩
      · cases hd
        exact hcounted
    | false =>
      have hi : i.applyConfiguration configuration = { i with health := { i.health with
          sensorConfiguration := some { configuration with revision := previous.revision + 1 }
          calibrationChangeCount := i.health.calibrationChangeCount + 1 } } := by
        simp [Impl.applyConfiguration, hprevious, hsame]
      rw [hi]
      refine ⟨⟨h.exclusive, h.faithful, h.agrees, fun x hx => ⟨_, rfl, ?_⟩, fun d hd => ?_,
        fun h => by cases h⟩, hfailed, configuration, previous.revision + 1, hg, rfl⟩
      · have hle := (hbounded x hx).1
        exact ⟨Nat.le_succ_of_le hle, fun hrevision => by dsimp only at hrevision; omega⟩
      · cases hd
        exact congrArg (· + 1) hcounted

theorem runNext_consistent {p : RunPc D} (hnext : runNext config w n c worker p = some r)
    (h : g.Consistent w.impl) (hp : Sourced w.impl g p) :
    (r.events.foldl Provenance.next g).Consistent r.impl ∧
      Sourced r.impl (r.events.foldl Provenance.next g) r.worker.pc := by
  cases hconfigures : p.configures with
  | false =>
    have hsame := runNext_configuration hnext hconfigures
    rw [Provenance.foldl_unheeded (runNext_unheeded hnext hconfigures)]
    exact ⟨h.same hsame, (runNext_sourced hnext hconfigures hp).same hsame⟩
  | true =>
    cases p with
    | top =>
      simp only [runNext] at hnext
      split at hnext <;> cases hnext
      · exact ⟨h, trivial⟩
      · exact ⟨⟨(fun h => by cases h), h.faithful, h.agrees, h.bounded, h.counted, h.uncounted⟩, rfl, rfl⟩
    | session q =>
      cases q with
      | discover =>
        obtain ⟨hfailed, hconnected⟩ := hp
        simp only [runNext, sessionNext] at hnext
        (repeat' split at hnext) <;> cases hnext
        · exact ⟨⟨h.exclusive, h.faithful, h.agrees, h.bounded, h.counted, h.uncounted⟩, hfailed, rfl⟩
        · exact ⟨⟨h.exclusive, h.faithful, h.agrees, h.bounded, h.counted, h.uncounted⟩, hfailed, rfl⟩
        · exact ⟨⟨fun _ => hconnected, h.faithful, h.agrees, h.bounded, h.counted, h.uncounted⟩,
            trivial⟩
      | apply configuration => cases hnext; exact h.apply hp.1 hp.2
      | connect =>
        simp only [runNext, sessionNext] at hnext
        split at hnext <;> cases hnext
        · have hclosed : (w.impl.closedEvents).foldl Provenance.next g = g :=
            Provenance.foldl_unheeded (fun e he => by
              simp only [Impl.closedEvents] at he
              split at he <;> simp_all [Provenance.heeds]) g
          rw [List.foldl_append, hclosed]
          refine ⟨⟨fun hfailed => ?_, h.faithful, h.agrees, h.bounded, h.counted, h.uncounted⟩, hp⟩
          have hboth : false = true := hp.1.symm.trans hfailed
          cases hboth
        · exact ⟨h, hp⟩
      | record q =>
        cases q with
        | account record receivedAt rdt ft =>
          simp only [runNext, sessionNext, recordNext] at hnext
          split at hnext
          · cases hnext; exact ⟨h, trivial⟩
          · rename_i i configuration verdict haccount
            obtain ⟨hconfiguration, rfl, rfl⟩ := account_some haccount
            have hsame : SameConfiguration w.impl
                (w.impl.accounted config record receivedAt rdt ft) := ⟨rfl, rfl⟩
            have hkeep := h.same hsame
            have happlied : Applied _ g := Applied.same hp hsame
            split at hnext <;> cases hnext
            · rw [afterRecord_provenance, afterRecord_impl]
              exact ⟨⟨hkeep.exclusive, hkeep.faithful, hkeep.agrees, hkeep.bounded, hkeep.counted,
                hkeep.uncounted⟩, afterRecord_sourced happlied⟩
            · obtain ⟨-, rfl, -, -⟩ := dispose_deliver ‹_›
              exact ⟨⟨hkeep.exclusive, hkeep.faithful, hkeep.agrees, hkeep.bounded, hkeep.counted,
                hkeep.uncounted⟩, happlied, configuration, hconfiguration, _,
                List.mem_append_right _ (List.mem_singleton_self _), rfl⟩
        | copyCallback sample outcome =>
          obtain ⟨happlied, configuration, hi, x, hx, rfl⟩ := hp
          simp only [runNext, sessionNext, recordNext] at hnext
          (repeat' split at hnext) <;> cases hnext
          · exact ⟨h, happlied⟩
          · exact ⟨h.invoke happlied hi hx n, happlied⟩
          · exact ⟨h, happlied⟩
        | _ => cases hconfigures
      | _ => cases hconfigures
    | _ => cases hconfigures

end

/-! ## Runs -/

section
variable [Double D]

/-- The history, the health record and the workers agree on the current session. -/
structure Provenanced (w : World D) (l : List (Event D)) : Prop where
  consistent : (provenance l).Consistent w.impl
  sourced : ∀ n, Sourced w.impl (provenance l) (w.workers n).pc

theorem consistent_initial : Provenance.Consistent (D := D) {} {} where
  exclusive h := by cases h
  faithful x hx := by cases hx
  agrees := .nil
  bounded x hx := by cases hx
  counted configuration h := by cases h
  uncounted _ := rfl

theorem provenanced_initial (clock : TimePoint) : Provenanced (D := D) (World.initial clock) [] :=
  ⟨consistent_initial, fun _ => trivial⟩

/-- A step that reports nothing about the session and moves no worker. -/
theorem Provenanced.frame (h : Provenanced w l) (hsame : SameConfiguration w.impl w'.impl)
    (hevents : ∀ e ∈ l', Provenance.heeds e = false)
    (hworkers : ∀ n, (w'.workers n).pc = (w.workers n).pc ∨ (w'.workers n).pc = .top) :
    Provenanced w' (l ++ l') := by
  refine ⟨?_, fun n => ?_⟩ <;> rw [provenance_append, Provenance.foldl_unheeded hevents]
  · exact h.consistent.same hsame
  · rcases hworkers n with hpc | hpc <;> rw [hpc]
    · exact (h.sourced n).same hsame
    · trivial

theorem sourced_of_idle {p : RunPc D} (hp : p.running = false) : Sourced i g p := by
  cases p with
  | unborn | exited => trivial
  | _ => cases hp

end

section
variable [DecidableEq D] [Double D]

theorem Provenanced.move (h : Provenanced w l) (hv : Reachable config w l) (hm : Moved config w w' l') :
    Provenanced w' (l ++ l') := by
  have ho := hv.orderly
  cases hm with
  | tick | spurious => exact h.frame ⟨rfl, rfl⟩ (by simp) fun _ => .inl rfl
  | call t call hidle hmay =>
    exact h.frame ⟨rfl, rfl⟩ (by simp [Provenance.heeds]) fun _ => .inl rfl
  | api t c r hnext htake =>
    refine h.frame (.of_lifetime (apiNext_lifetime hnext (hv.savedLifetime t)).1) (fun e he => ?_)
      fun n => (ho.applyApi_worker config t r n).imp (congrArg Worker.pc) And.right
    exact Provenance.heeds_of_owner (owner_of_byApi (apiNext_events hnext e he))
  | run n c r hnext htake =>
    obtain ⟨hconsistent, hsourced⟩ := runNext_consistent hnext h.consistent (h.sourced n)
    refine ⟨?_, fun k => ?_⟩ <;> rw [provenance_append]
    · exact hconsistent
    · rw [World.applyRun_workers]
      by_cases hk : k = n
      · rw [hk, Function.update_self]
        exact hsourced
      · rw [Function.update_of_ne hk]
        refine sourced_of_idle (eq_false_of_ne_true fun hrun => hk ?_)
        exact ho.executing_unique (executing_of_next hnext) hrun

theorem Reachable.provenanced (h : Reachable config w l) : Provenanced w l :=
  h.induction (I := fun v k => Provenanced v k) provenanced_initial fun hv hi hm => hi.move hv hm

end

/-! ## What the ghost reads -/

def Event.invokedSample : Event D → Option (Sample D)
  | .invoked _ sample => some sample
  | _ => none

/-- The conversions are those of the samples that were passed to the callback, in order. -/
theorem provenance_samples (l : List (Event D)) :
    (provenance l).conversions.map (·.sample) = l.filterMap Event.invokedSample := by
  induction l using List.reverseRecOn with
  | nil => rfl
  | append_singleton l e ih =>
    rw [provenance_append, List.filterMap_append, ← ih]
    cases e with
    | invoked n sample => exact List.map_append
    | _ => exact (List.append_nil _).symm

theorem provenance_failed (l : List (Event D)) :
    (provenance l).discoveryFailed = true ↔ ∃ n, .discoveryFailed n ∈ currentSession l := by
  induction l using List.reverseRecOn with
  | nil => simp [provenance, currentSession]
  | append_singleton l e ih =>
    rw [provenance_append, currentSession_concat]
    cases e with
    | sessionBegan n => simp [Provenance.next, Event.beginsSession]
    | discoveryFailed n => simp [Provenance.next, Event.beginsSession]
    | _ => simpa [Provenance.next, Event.beginsSession] using ih

theorem provenance_connected {m : Wire} (h : Wire.run {} l = some m) :
    (provenance l).connected = m.connected := by
  induction l using List.reverseRecOn generalizing m with
  | nil => cases h; rfl
  | append_singleton l e ih =>
    obtain ⟨m₁, hl, he⟩ := Wire.run_append.mp h
    replace he : m₁.step e = some m := by simpa [Wire.run] using he
    have hsame := ih hl
    rw [provenance_append]
    cases e with
    | sessionBegan | connected =>
      simp only [Wire.step] at he
      split at he <;> cases he
      rfl
    | closed =>
      simp only [Wire.step] at he
      split at he <;> cases he
      exact hsame
    | sent t s command ok =>
      simp only [Wire.step] at he
      split at he
      · obtain ⟨stage, -, rfl⟩ := Option.map_eq_some_iff.mp he
        exact hsame
      · cases he
    | _ => cases he; exact hsame

section
variable [DecidableEq D] [Double D]

/-- Nothing is sent in a session whose discovery failed. -/
theorem Reachable.silent_undiscovered (h : Reachable config w l)
    (hfailed : .discoveryFailed n ∈ currentSession l) (s : Nat) (command : Command) (ok : Bool) :
    .sent t s command ok ∉ currentSession l := by
  intro he
  obtain ⟨m, hrun, -⟩ := h.onWire
  have hreads := Wire.reads_of_run hrun
  have hconnected := h.provenanced.consistent.exclusive ((provenance_failed l).mpr ⟨n, hfailed⟩)
  rw [provenance_connected hrun] at hconnected
  have hsession := hreads.session
  rw [(hreads.notConnected hconnected).1] at hsession
  have hnone : (currentSession l).filterMap Event.attempt = [] := by
    cases hattempts : (currentSession l).filterMap Event.attempt with
    | nil => rfl
    | cons a as => rw [hattempts] at hsession; cases hsession
  have hattempt := List.filterMap_eq_nil_iff.mp hnone _ he
  cases hattempt

/-- What a snapshot says about the configuration. -/
def Revised (snapshot : HealthSnapshot D) : Prop :=
  ∀ configuration, snapshot.sensorConfiguration = some configuration →
    snapshot.calibrationChangeCount = configuration.revision - 1 ∧ 1 ≤ configuration.revision

theorem Reachable.revised (h : Reachable config w l) : Revised w.impl.health := by
  intro configuration hc
  have hcounted := h.provenanced.consistent.counted configuration hc
  omega

theorem Reachable.reads_revised (h : Reachable config w l) {snapshot : HealthSnapshot D}
    (he : .healthRead t snapshot ∈ l) : Revised snapshot := by
  obtain ⟨clock, hrun⟩ := h
  refine hrun.invariant (I := fun _ k => ∀ t s, .healthRead t s ∈ k → Revised s) (by simp) ?_ t
    snapshot he
  intro v k a v' k' hv hk hstep t s he
  rcases List.mem_append.mp he with he | he
  · exact hk t s he
  · obtain ⟨t', c, q, rfl, hq, he⟩ := step_reads hstep he rfl
    cases q with
    | health =>
      obtain ⟨rfl, rfl⟩ : t = t' ∧ s = (v.impl.takeHealth v.clock).2 := by
        simpa [queryNext] using he
      exact Reachable.revised ⟨clock, hv⟩
    | _ => simp [queryNext] at he

/-- In every history of a client, every sample that was passed to the callback was converted from a
record of its session with the configuration that discovery returned in that session; the revisions
of these samples never decrease, and stand for the calibration; nothing is sent in a session whose
discovery failed; and the number of calibration changes, in the client and in every snapshot, is
one less than the revision. -/
theorem calibration_provenance (h : Reachable config w l) :
    (provenance l).conversions.map (·.sample) = l.filterMap Event.invokedSample ∧
    (∀ x ∈ (provenance l).conversions, x.Faithful) ∧
    (provenance l).conversions.Pairwise Conversion.Agrees ∧
    (∀ n, .discoveryFailed n ∈ currentSession l →
      ∀ t s ok, .sent t s .startRealtime ok ∉ currentSession l) ∧
    Revised w.impl.health ∧
    ∀ t snapshot, .healthRead t snapshot ∈ l → Revised snapshot :=
  ⟨provenance_samples l, h.provenanced.consistent.faithful, h.provenanced.consistent.agrees,
    fun _ hfailed _ s ok => h.silent_undiscovered hfailed s _ ok, h.revised,
    fun _ _ he => h.reads_revised he⟩

end

/-- Worker `n` from the beginning of a session to its receive loop, with the given scale. -/
def discoverActions (n : Nat) (scale : Rat) : List (Action Rat) :=
  List.replicate 3 (.run n .go) ++
    .run n (.discovered {
      productName := "", source := .sensor, revision := 0
      calibration := {
        countsPerForceUnit := scale, countsPerTorqueUnit := scale, forceUnit := .newton
        torqueUnit := .newtonMeter } }) ::
    List.replicate 2 (.run n .go) ++
    [.run n .succeeds, .run n .go, .run n .succeeds, .run n .go, .run n .go]

/-- A client that has delivered a record in each of two sessions, between which the calibration has
changed. -/
def recalibratedClient : World Rat × List (Event Rat) :=
  (machine { demoConfig .reconnect with calibrationOverride := none }).perform (World.initial 1)
    (startActions (.client 0) ++ discoverActions 0 1 ++ receiveActions 0 (List.replicate 36 0) ++
      List.replicate 3 (.run 0 .go) ++ [.run 0 (.fails "poll"), .run 0 .go, .run 0 .succeeds] ++
      List.replicate 5 (.run 0 .go) ++ [.tick ticksPerSecond, .run 0 .go] ++
      discoverActions 0 2 ++ receiveActions 0 ([0, 0, 0, 1, 0, 0, 0, 1] ++ List.replicate 28 0))

theorem calibration_provenance_recalibratedClient :
    (provenance recalibratedClient.2).conversions.map (·.revision) = [1, 2] ∧
      (∀ x ∈ (provenance recalibratedClient.2).conversions, x.Faithful) ∧
      recalibratedClient.1.impl.health.calibrationChangeCount = 1 := by
  have h : Reachable { demoConfig .reconnect with calibrationOverride := none }
      recalibratedClient.1 recalibratedClient.2 := ⟨1, Machine.run_perform (by decide +kernel)⟩
  exact ⟨by decide +kernel, (calibration_provenance h).2.1, by decide +kernel⟩

end NetFT.Client
