import NetFT.Calibration
import NetFT.Client.Provenance
import NetFT.Detail.XmlVariation

/-! Conversion never fails on its own. A session ends with `kSensorConfiguration` in two places: a
failed discovery, and a sample whose axes are not finite. Where every configuration that was
discovered converts every record to finite axes, which those that were validated do, the second
place is not reached. -/

namespace NetFT.Client
open Detail Library

variable {D : Type}

/-- Every record has finite axes. -/
def Convertible [Double D] (configuration : SensorConfiguration D) : Prop :=
  ∀ record receivedAt, finiteAxes (makeSample configuration record receivedAt) = true

/-- Every configuration that discovery has returned. -/
def AllConvertible [Double D] (l : List (Event D)) : Prop :=
  ∀ n configuration, .discovered n configuration ∈ l → Convertible configuration

variable {config : Config D} {w w' : World D} {n : Nat} {c : Choice D} {worker : Worker D}
  {r : RunNext D} {l l' : List (Event D)}

theorem Convertible.revise [Double D] {configuration : SensorConfiguration D}
    (h : Convertible configuration) (revision : Nat) :
    Convertible { configuration with revision } := h

theorem provenance_configuration {configuration : SensorConfiguration D}
    (h : (provenance l).configuration = some configuration) :
    ∃ n, .discovered n configuration ∈ l := by
  induction l using List.reverseRecOn with
  | nil => cases h
  | append_singleton l e ih =>
    rw [provenance_append] at h
    cases e with
    | discovered n configuration' => cases h; exact ⟨n, by simp⟩
    | sessionBegan => cases h
    | _ =>
      obtain ⟨n, hn⟩ := ih h
      exact ⟨n, List.mem_append_left _ hn⟩

/-! ## One record -/

theorem statusOutcome_ne {severity : StatusSeverity} {ft : FtSequenceKind} :
    statusOutcome severity ft ≠ some .sensorConfiguration := by
  unfold statusOutcome
  (repeat' split) <;> simp

theorem recordVerdict_ne {lastDeliveryAt receivedAt : TimePoint} {rdt : SequenceKind}
    {ft : FtSequenceKind} {severity : StatusSeverity} :
    (recordVerdict config lastDeliveryAt receivedAt rdt ft severity).outcome ≠
      some .sensorConfiguration := by
  simp only [recordVerdict]
  (repeat' split) <;> first | exact statusOutcome_ne | simp

theorem callbackFailureOutcome_ne {outcome : Option SessionResult}
    (h : outcome ≠ some .sensorConfiguration) :
    callbackFailureOutcome config outcome ≠ some .sensorConfiguration := by
  unfold callbackFailureOutcome
  split
  · exact h
  · simp

/-- What a step of a worker leaves: no record is about to end its session with
`kSensorConfiguration`, and none has. -/
structure Spared (r : RunNext D) : Prop where
  outcome : r.worker.pc.recordOutcome ≠ some .sensorConfiguration
  ended : ∀ k o, .sessionEnded k o ∈ r.events → o.result ≠ .sensorConfiguration

theorem spared_afterRecord {i : Impl D} {outcome : Option SessionResult} {events : List (Event D)}
    (hevents : ∀ k o, .sessionEnded k o ∉ events) (h : outcome ≠ some .sensorConfiguration) :
    Spared (afterRecord i worker n outcome events) where
  outcome := by rw [afterRecord_recordOutcome]; simp
  ended k o he hresult := by
    obtain ⟨-, -, houtcome⟩ := afterRecord_ended hevents he
    exact h (houtcome.trans (congrArg some hresult))

theorem recordNext_spared [Double D] {p : RecordPc D}
    (hnext : recordNext config w n c worker p = some r)
    (hp : p.outcome ≠ some .sensorConfiguration)
    (hconvertible : ∀ record receivedAt rdt ft, p = .account record receivedAt rdt ft →
      ∀ configuration, w.impl.health.sensorConfiguration = some configuration →
        Convertible configuration) : Spared r := by
  cases p with
  | account record receivedAt rdt ft =>
    simp only [recordNext] at hnext
    split at hnext
    · cases hnext
      exact ⟨by simp [RunPc.recordOutcome], by simp⟩
    rename_i haccount
    obtain ⟨hconfiguration, -, hverdict⟩ := account_some haccount
    have hfinite := hconvertible record receivedAt rdt ft rfl _ hconfiguration record receivedAt
    have hne : ∀ {outcome : Option SessionResult},
        outcome = _ → outcome ≠ some .sensorConfiguration :=
      fun h => h.trans (congrArg Verdict.outcome hverdict) ▸ recordVerdict_ne
    split at hnext <;> cases hnext
    · rcases dispose_finish ‹_› with ⟨-, houtcome⟩ | ⟨-, hinfinite, -⟩
      · exact spared_afterRecord (by simp) (hne houtcome)
      · rw [hfinite] at hinfinite
        cases hinfinite
    · obtain ⟨-, -, -, houtcome⟩ := dispose_deliver ‹_›
      exact ⟨hne houtcome, by simp⟩
  | callbackFailed message outcome =>
    cases hnext
    exact spared_afterRecord (by simp) (callbackFailureOutcome_ne hp)
  | notifyLifecycle outcome =>
    cases hnext
    exact spared_afterRecord (by simp) hp
  | observe => cases hnext; exact ⟨by simp [RunPc.recordOutcome, RecordPc.outcome], by simp⟩
  | _ =>
    simp only [recordNext] at hnext
    (repeat' split at hnext) <;> cases hnext <;> exact ⟨hp, by simp⟩

/-! ## One step -/

section
variable [DecidableEq D] [Double D]

/-- A worker is about to report that discovery failed only after it has. -/
theorem runNext_discoverFailed {p : RunPc D} {message : String}
    (hnext : runNext config w n c worker p = some r)
    (hr : r.worker.pc = .session (.discoverFailed message)) (g : Provenance D) :
    (r.events.foldl Provenance.next g).discoveryFailed = true := by
  cases p with
  | session q =>
    cases q with
    | discover =>
      simp only [runNext, sessionNext] at hnext
      (repeat' split at hnext) <;> cases hnext <;> first | rfl | cases hr
    | record q =>
      cases q <;> simp only [runNext, sessionNext, recordNext] at hnext <;>
        (repeat' split at hnext) <;> cases hnext <;>
        first
        | cases hr
        | (rename_i outcome _; cases outcome <;> cases hr)
        | (unfold afterRecord at hr; split at hr <;> cases hr)
    | pollCheck =>
      cases hnext
      dsimp only at hr
      split at hr <;> cases hr
    | _ =>
      simp only [runNext, sessionNext] at hnext
      (repeat' split at hnext) <;> cases hnext <;> cases hr
  | closeTransport context => cases hnext; cases context <;> cases hr
  | raised | finalFaulted =>
    cases hnext
    dsimp only at hr
    split at hr <;> cases hr
  | _ =>
    simp only [runNext] at hnext
    (repeat' split at hnext) <;> cases hnext <;> cases hr

/-- A record is entered without a result. -/
theorem runNext_entersRecord {p : RunPc D} (hnext : runNext config w n c worker p = some r)
    (hp : ∀ q, p ≠ .session (.record q)) : r.worker.pc.recordOutcome = none := by
  cases p with
  | session q =>
    cases q with
    | record q => exact absurd rfl (hp q)
    | pollCheck =>
      cases hnext
      dsimp only
      split <;> rfl
    | _ =>
      simp only [runNext, sessionNext] at hnext
      (repeat' split at hnext) <;> cases hnext <;> rfl
  | closeTransport context => cases hnext; cases context <;> rfl
  | raised | finalFaulted =>
    cases hnext
    dsimp only
    split <;> rfl
  | _ =>
    simp only [runNext] at hnext
    (repeat' split at hnext) <;> cases hnext <;> rfl

theorem runNext_spared {p : RunPc D} (hnext : runNext config w n c worker p = some r)
    (hp : p.recordOutcome ≠ some .sensorConfiguration)
    (hconvertible : ∀ record receivedAt rdt ft,
      p = .session (.record (.account record receivedAt rdt ft)) →
        ∀ configuration, w.impl.health.sensorConfiguration = some configuration →
          Convertible configuration)
    (hdiscovery : ∀ message, p ≠ .session (.discoverFailed message)) : Spared r := by
  by_cases hrecord : ∃ q, p = .session (.record q)
  · obtain ⟨q, rfl⟩ := hrecord
    exact recordNext_spared hnext hp fun record receivedAt rdt ft hq =>
      hconvertible record receivedAt rdt ft (congrArg (RunPc.session ∘ SessionPc.record) hq)
  · have hnone : p.recordOutcome = none := by
      cases p with
      | session q =>
        cases q with
        | record q => exact absurd ⟨q, rfl⟩ hrecord
        | _ => rfl
      | _ => rfl
    refine ⟨by rw [runNext_entersRecord hnext fun q hq => hrecord ⟨q, hq⟩]; simp,
      fun k o he hresult => ?_⟩
    obtain ⟨-, -, hends⟩ := runNext_ended hnext (by simp [hnone]) he
    rw [hresult] at hends
    cases hends with
    | discovery message => exact hdiscovery message rfl
    | record q => exact hrecord ⟨q, rfl⟩

end

/-! ## Runs -/

/-- Conversion has not failed in the history, and is not about to. -/
structure NeverFails [Double D] (w : World D) (l : List (Event D)) : Prop where
  finite : ∀ n x sample, .processed n x ∈ l → x.converted = some sample → finiteAxes sample = true
  outcome : ∀ n, (w.workers n).pc.recordOutcome ≠ some .sensorConfiguration
  failed : ∀ n message, (w.workers n).pc = .session (.discoverFailed message) →
    (provenance l).discoveryFailed = true
  ended : ∀ p n o s, l = p ++ .sessionEnded n o :: s → o.result = .sensorConfiguration →
    (provenance p).discoveryFailed = true

section
variable [Double D]

theorem neverFails_initial (clock : TimePoint) : NeverFails (D := D) (World.initial clock) [] where
  finite n x sample h := by cases h
  outcome n := by simp [World.initial, RunPc.recordOutcome]
  failed n message h := by cases h
  ended p n o s h := by simp at h

theorem NeverFails.append (h : NeverFails w l)
    (hfinite : ∀ n x sample, .processed n x ∈ l' → x.converted = some sample →
      finiteAxes sample = true)
    (houtcome : ∀ n, (w'.workers n).pc.recordOutcome ≠ some .sensorConfiguration)
    (hfailed : ∀ n message, (w'.workers n).pc = .session (.discoverFailed message) →
      (provenance (l ++ l')).discoveryFailed = true)
    (hended : ∀ p n o s, l' = p ++ .sessionEnded n o :: s → o.result = .sensorConfiguration →
      (provenance (l ++ p)).discoveryFailed = true) : NeverFails w' (l ++ l') where
  finite n x sample he hx := by
    rcases List.mem_append.mp he with he | he
    · exact h.finite n x sample he hx
    · exact hfinite n x sample he hx
  outcome := houtcome
  failed := hfailed
  ended p n o s hl hresult := by
    rcases List.append_eq_append_iff.mp hl with ⟨p', rfl, hl'⟩ | ⟨s', rfl, hs⟩
    · exact hended p' n o s hl' hresult
    · cases s' with
      | nil => simpa using hended [] n o s hs.symm hresult
      | cons e s' =>
        obtain ⟨rfl, -⟩ := List.cons.inj hs
        exact h.ended p n o s' rfl hresult

end

section
variable [DecidableEq D] [Double D]

theorem Reachable.convertible (h : Reachable config w l) (hl : AllConvertible l)
    {record : RawRecord} {receivedAt : TimePoint} {rdt : SequenceObservation} {ft : FtSequenceKind}
    (hpc : (w.workers n).pc = .session (.record (.account record receivedAt rdt ft)))
    {configuration : SensorConfiguration D}
    (hc : w.impl.health.sensorConfiguration = some configuration) : Convertible configuration := by
  have hsourced := h.provenanced.sourced n
  rw [hpc] at hsourced
  obtain ⟨-, source, revision, hg, hsource⟩ := hsourced
  obtain rfl := Option.some.inj (hc.symm.trans hsource)
  obtain ⟨k, hk⟩ := provenance_configuration hg
  exact (hl k source hk).revise revision

theorem NeverFails.move (h : NeverFails w l) (hv : Reachable config w l) (hl : AllConvertible l)
    (hm : Moved config w w' l') : NeverFails w' (l ++ l') := by
  have ho := hv.orderly
  cases hm with
  | tick | spurious =>
    exact h.append (by simp) h.outcome (by simpa using h.failed) (by simp)
  | call t call hidle hmay =>
    refine h.append (by simp) h.outcome (fun n message hpc => ?_) (fun p n o s hp => ?_)
    · rw [provenance_append, Provenance.foldl_unheeded (by simp [Provenance.heeds])]
      exact h.failed n message hpc
    · cases p <;> simp at hp
  | api t c r hnext htake =>
    have hunheeded : ∀ e ∈ r.events, Provenance.heeds e = false := fun e he =>
      Provenance.heeds_of_owner (owner_of_byApi (apiNext_events hnext e he))
    refine h.append (fun n x sample he => ?_) (fun k => ?_) (fun k message hpc => ?_)
      (fun p n o s hp => ?_)
    · have hby := apiNext_events hnext _ he
      cases hby
    · rcases ho.applyApi_worker config t r k with hsame | ⟨-, htop⟩
      · rw [hsame]; exact h.outcome k
      · rw [htop]; simp [RunPc.recordOutcome]
    · rw [provenance_append, Provenance.foldl_unheeded hunheeded]
      rcases ho.applyApi_worker config t r k with hsame | ⟨-, htop⟩
      · exact h.failed k message (hsame ▸ hpc)
      · rw [htop] at hpc
        cases hpc
    · have hby := apiNext_events hnext (.sessionEnded n o) (hp ▸ by simp)
      cases hby
  | run n c r hnext htake =>
    have hother : ∀ {k}, k ≠ n → ((w.applyRun n r).workers k).pc = (w.workers k).pc := fun hk => by
      rw [World.applyRun_workers, Function.update_of_ne hk]
    have hself : ((w.applyRun n r).workers n).pc = r.worker.pc := by
      rw [World.applyRun_workers, Function.update_self]
    have hspared : (∀ message, (w.workers n).pc ≠ .session (.discoverFailed message)) → Spared r :=
      runNext_spared hnext (h.outcome n) fun record receivedAt rdt ft hpc configuration hc =>
        hv.convertible hl hpc hc
    refine h.append (fun k x sample he hx => ?_) (fun k => ?_) (fun k message hpc => ?_)
      (fun p k o s hp hresult => ?_)
    · obtain ⟨rfl, hpc, -, configuration, hc, -, hconverted⟩ := runNext_processed hnext he
      rw [hx] at hconverted
      split at hconverted
      · rw [Option.some.inj hconverted]
        exact hv.convertible hl hpc hc x.record x.receivedAt
      · cases hconverted
    · by_cases hk : k = n
      · rw [hk, hself]
        by_cases hdiscovery : ∃ message, (w.workers n).pc = .session (.discoverFailed message)
        · obtain ⟨message, hpc⟩ := hdiscovery
          rw [runNext_entersRecord hnext (by simp [hpc])]
          simp
        · exact (hspared fun message hpc => hdiscovery ⟨message, hpc⟩).outcome
      · rw [hother hk]
        exact h.outcome k
    · rw [provenance_append]
      by_cases hk : k = n
      · rw [hk, hself] at hpc
        exact runNext_discoverFailed hnext hpc _
      · rw [hother hk] at hpc
        refine absurd (ho.executing_unique (executing_of_next hnext) ?_) hk
        rw [World.executing, hpc]
        rfl
    · by_cases hdiscovery : ∃ message, (w.workers n).pc = .session (.discoverFailed message)
      · obtain ⟨message, hpc⟩ := hdiscovery
        rw [hpc] at hnext
        cases hnext
        obtain rfl : p = [] := by cases p <;> simp_all [endSession]
        rw [List.append_nil]
        exact h.failed n message hpc
      · exact absurd hresult ((hspared fun message hpc => hdiscovery ⟨message, hpc⟩).ended k o
          (hp ▸ by simp))

theorem Reachable.neverFails (h : Reachable config w l) (hl : AllConvertible l) :
    NeverFails w l :=
  h.induction (I := fun v k => AllConvertible k → NeverFails v k)
    (fun clock _ => neverFails_initial clock)
    (fun hv hi hm hk =>
      have hprefix := fun n configuration he => hk n configuration (List.mem_append_left _ he)
      (hi hprefix).move hv hprefix hm) hl

/-- Under an override nothing else is discovered. -/
theorem Reachable.discovered_override (h : Reachable config w l) {calibration : Calibration D}
    (hoverride : config.calibrationOverride = some calibration)
    {configuration : SensorConfiguration D} (he : .discovered n configuration ∈ l) :
    configuration.calibration = calibration := by
  refine h.induction (I := fun _ k => ∀ n configuration, .discovered n configuration ∈ k →
    configuration.calibration = calibration) (by simp)
    (fun {v v' k k'} _ hi hm n configuration he => ?_)
    n configuration he
  rcases List.mem_append.mp he with he | he
  · exact hi n configuration he
  cases hm with
  | tick | spurious | call => simp at he
  | api t c r hnext htake =>
    have hby := apiNext_events hnext _ he
    cases hby
  | run m c r hnext htake =>
    have hpc : (v.workers m).pc = .session .discover := runNext_reportedAt hnext _ he
    rw [hpc] at hnext
    simp only [runNext, sessionNext, hoverride] at hnext
    cases hnext
    cases List.mem_singleton.mp he
    rfl

end

/-! ## Accepted settings -/

section
variable {d : Direction} {settings : Settings (Binary64 d)} {now : Nat → TimePoint}
  {reader : Xml.NumberReader (Binary64 d)} {w : World (Binary64 d)} {l : List (Event (Binary64 d))}

/-- The settings validate, and what is discovered without an override was parsed from a document. -/
theorem allConvertible_of_parsed (hsettings : settings.validate now = .ok ())
    (h : Reachable settings.toConfig w l)
    (hparsed : settings.calibrationOverride = none → ∀ n configuration,
      .discovered n configuration ∈ l →
        ∃ xml, Xml.parseSensorConfiguration reader xml = .ok configuration) : AllConvertible l := by
  intro n configuration he
  refine fun record receivedAt => finiteAxes_makeSample ?_ record receivedAt
  cases hoverride : settings.calibrationOverride with
  | none =>
    obtain ⟨xml, hxml⟩ := hparsed hoverride n configuration he
    exact (Xml.parseSensorConfiguration_ok hxml).1
  | some calibration =>
    rw [h.discovered_override hoverride he]
    exact Settings.validate_override hsettings hoverride

/-- Under settings that were accepted, and where discovery returns what it has parsed from some
document, with `double` arithmetic in any rounding direction: every record that passes the filters
is converted to finite axes, and every session that ends with `kSensorConfiguration` is one whose
discovery has failed. -/
theorem conversion_never_fails (hsettings : settings.validate now = .ok ())
    (h : Reachable settings.toConfig w l)
    (hparsed : settings.calibrationOverride = none → ∀ n configuration,
      .discovered n configuration ∈ l →
        ∃ xml, Xml.parseSensorConfiguration reader xml = .ok configuration) :
    (∀ n x sample, .processed n x ∈ l → x.converted = some sample → finiteAxes sample = true) ∧
    ∀ p n o s, l = p ++ .sessionEnded n o :: s → o.result = .sensorConfiguration →
      ∃ k, .discoveryFailed k ∈ currentSession p :=
  have hnever := h.neverFails (allConvertible_of_parsed hsettings h hparsed)
  ⟨hnever.finite, fun p n o s hl hresult =>
    (provenance_failed p).mp (hnever.ended p n o s hl hresult)⟩

end

/-- Settings without an override. -/
def discoveringSettings : Settings (Binary64 .upward) where
  sensorHost := [0x61]
  rdtPort := 49152
  httpPort := 80
  receiveTimeout := 1
  configurationConnectTimeout := 1
  configurationTimeout := 1
  reconnectInitialDelay := 1
  reconnectMaxDelay := 1
  sampleRateLimitHz := 0
  deliverSamplesWithErrorStatus := false
  recoveryPolicy := .reconnect
  calibrationOverride := none

def binaryReader : Xml.NumberReader (Binary64 .upward) where
  environment := none
  read value := (Xml.decimalReader.read value).map (·.map (FloatValue.ofExact .upward) id)

/-- What discovery makes of a document. -/
def parsedChoice (xml : List UInt8) : Choice (Binary64 .upward) :=
  match Xml.parseSensorConfiguration binaryReader xml with
  | .ok configuration => .discovered configuration
  | .error _ => .fails ""

def Event.discovery : Event D → Option (SensorConfiguration D)
  | .discovered _ configuration => some configuration
  | _ => none

/-- The actions, one list for each stage: `start`; discovery and connection; a record with the
largest counts; its delivery; the socket fails; discovery fails. -/
def rediscoveryActions : List (List (Action (Binary64 .upward))) :=
  [ .call (.client 0) (.start (some 0)) :: List.replicate 7 (.api (.client 0) .go),
    .api (.client 0) .succeeds :: List.replicate 3 (.api (.client 0) .go),
    [.run 0 .go, .run 0 .go, .run 0 .go, .run 0 (parsedChoice (Xml.sheet "a")), .run 0 .go],
    [.run 0 .go, .run 0 .succeeds, .run 0 .go, .run 0 .succeeds, .run 0 .go, .run 0 .go],
    [.run 0 .go, .run 0 .go, .run 0 .go, .run 0 .succeeds, .run 0 .go],
    [.run 0 (.datagram (List.replicate 12 0 ++ (List.replicate 6 [0x80, 0, 0, 0]).flatten))],
    List.replicate 5 (.run 0 .go), [.run 0 .succeeds, .run 0 .succeeds],
    List.replicate 7 (.run 0 .go), [.run 0 (.fails "poll"), .run 0 .go, .run 0 .succeeds],
    List.replicate 5 (.run 0 .go), [.tick ticksPerSecond], List.replicate 4 (.run 0 .go),
    [.run 0 (parsedChoice []), .run 0 .go] ]

/-- A client that discovers its calibration, delivers a record, and fails to discover one again. -/
def rediscoveringClient : World (Binary64 .upward) × List (Event (Binary64 .upward)) :=
  (machine discoveringSettings.toConfig).perform (World.initial 1) rediscoveryActions.flatten

theorem rediscoveringClient_parsed {n : Nat}
    {configuration : SensorConfiguration (Binary64 .upward)}
    (he : .discovered n configuration ∈ rediscoveringClient.2) :
    ∃ xml, Xml.parseSensorConfiguration binaryReader xml = .ok configuration := by
  have hall : (rediscoveringClient.2.filterMap Event.discovery).all (fun configuration =>
      (Xml.parseSensorConfiguration binaryReader (Xml.sheet "a")).toOption =
        some configuration) = true := by decide +kernel
  have hok := of_decide_eq_true (List.all_eq_true.mp hall configuration
    (List.mem_filterMap.mpr ⟨_, he, rfl⟩))
  cases hparse : Xml.parseSensorConfiguration binaryReader (Xml.sheet "a") with
  | ok configuration' => rw [hparse] at hok; cases hok; exact ⟨_, hparse⟩
  | error e => rw [hparse] at hok; cases hok

theorem conversion_never_fails_rediscoveringClient :
    (∀ n x sample, .processed n x ∈ rediscoveringClient.2 → x.converted = some sample →
      finiteAxes sample = true) ∧
    rediscoveringClient.2.any (fun e => e = .sessionEnded 0 ⟨.sensorConfiguration, "", false⟩) =
      true := by
  have h : Reachable discoveringSettings.toConfig rediscoveringClient.1 rediscoveringClient.2 :=
    ⟨1, Machine.run_perform (by decide +kernel)⟩
  have hvalid : discoveringSettings.validate (fun _ => 1) = .ok () := by decide +kernel
  exact ⟨(conversion_never_fails hvalid h fun _ _ _ => rediscoveringClient_parsed).1,
    by decide +kernel⟩

end NetFT.Client
