import NetFT.Client.LateCopies

/-! The stream that `bias` restarts. While `bias` stands between its commands and the reset of the
RDT tracker no record is accounted for, so every record of the new stream is handled after the
reset; but so may records of the old stream be that were on their way. Of the records after the
reset those are delivered whose number is larger than all before (`bias_restarts`): all of the new
stream, if none of the old one follows, and otherwise those whose number has passed the last old
one. -/

namespace NetFT.Client
open Detail Library

variable {D : Type}

/-! ## Records that advance -/

/-- The position is ahead of the largest one so far. -/
def Passes (front : Option Int) (a : Sighting) : Bool := front.elim true (· < a.position)

/-- The records that are ahead of all before them. -/
def advancing : Option Int → List Sighting → List Sighting
  | _, [] => []
  | front, a :: as =>
    if Passes front a then a :: advancing (some a.position) as else advancing front as

/-- Positions that increase. -/
def Increasing (as : List Sighting) : Prop := as.Pairwise fun a b => a.position < b.position

variable {config : Config D} {configuration : SensorConfiguration D} {w w' : World D} {t : Tid}
  {n k : Nat} {c : Choice D} {l l' l₁ l₂ : List (Event D)} {g g' : Serial D}
  {front : Option Int} {a : Sighting} {as bs : List Sighting}

/-- Once a position has passed all later ones do. -/
theorem advancing_increasing (front : Option Int) (h : Increasing as)
    (hfront : ∀ a ∈ as, Passes front a = true) :
    advancing front as = as := by
  induction as generalizing front with
  | nil => rfl
  | cons a as ih =>
    obtain ⟨hnext, hrest⟩ := List.pairwise_cons.mp h
    have hpass := hfront a List.mem_cons_self
    have hrest := ih (some a.position) hrest fun b hb => decide_eq_true (hnext b hb)
    rw [advancing, if_pos hpass, hrest]

theorem advancing_filter (h : Increasing as) (front : Option Int) :
    advancing front as = as.filter (Passes front) := by
  induction as generalizing front with
  | nil => rfl
  | cons a as ih =>
    obtain ⟨hnext, hrest⟩ := List.pairwise_cons.mp h
    rw [advancing, List.filter_cons]
    split
    · have hall : ∀ b ∈ as, Passes front b = true := by
        intro b hb
        cases front with
        | none => rfl
        | some f => exact decide_eq_true (lt_trans (of_decide_eq_true ‹_›) (hnext b hb))
      rw [List.filter_eq_self.mpr hall, advancing_increasing (some a.position) hrest
        fun b hb => decide_eq_true (hnext b hb)]
    · exact ih hrest front

/-- The old stream, as far as it follows, and then the new one. -/
theorem advancing_append (has : Increasing as) (hbs : Increasing bs) :
    advancing none (as ++ bs) =
      as ++ bs.filter (Passes (as.getLast?.map (·.position))) := by
  suffices ∀ front, (∀ a ∈ as, Passes front a = true) → advancing front (as ++ bs) =
      as ++ bs.filter (Passes ((as.getLast?.map (·.position)).or front)) by
    simpa using this none fun _ _ => rfl
  induction as with
  | nil => intro front _; exact advancing_filter hbs front
  | cons a as ih =>
    intro front hfront
    obtain ⟨hnext, hrest⟩ := List.pairwise_cons.mp has
    have hrest := ih hrest (some a.position) fun b hb => decide_eq_true (hnext b hb)
    rw [List.cons_append, advancing, if_pos (hfront a List.mem_cons_self), hrest,
      List.cons_append]
    cases as with
    | nil => rfl
    | cons b as => simp [List.getLast?_cons]

/-! ## What the records of a stream give -/

section
variable [Double D] {seen : List (Int × RawRecord)} {numbers : List UInt32}

def Sighting.sample (configuration : SensorConfiguration D) (a : Sighting) : Sample D :=
  makeSample configuration a.record a.receivedAt

/-- A record that arrives once, without an error status and with finite values. -/
structure Sighting.Clean (configuration : SensorConfiguration D) (a : Sighting) : Prop where
  original : a.late = false
  status : classifyStatus a.record.status ≠ .error
  finite : finiteAxes (a.sample configuration) = true

/-- The tracker decides as the positions do. -/
theorem rdtObserve_passes {t : RdtSequenceTracker} (hfresh : front = none → t.hasLast = false)
    (hat : ∀ f ∈ front, t.At f) (hnear : ∀ f ∈ front, Near f a.position) :
    (t.observe (word a.position)).2.advances = Passes front a := by
  cases front with
  | none =>
    rw [(observe_first (hfresh rfl) a.position).2]
    rfl
  | some f =>
    rw [((hat f rfl).observe (hnear f rfl)).2]
    rcases (hnear f rfl).advances with ⟨hadvances, hlt, -⟩ | ⟨hadvances, hle, -⟩
    · rw [hadvances]
      exact (decide_eq_true hlt).symm
    · rw [hadvances]
      exact (decide_eq_false (not_lt.mpr hle)).symm

omit [Double D] in
theorem recordVerdict_clean {o : SequenceObservation} {severity : StatusSeverity}
    (hrate : config.sampleRateLimitHz = 0) (hseverity : severity ≠ .error) :
    recordVerdict config 0 0 o.kind .forward severity =
      { deliver := o.advances, outcome := none, rateLimited := false } := by
  have hlimit : ∀ last now, rateLimitHolds config last now = false := by
    simp [rateLimitHolds, hrate]
  simp only [recordVerdict, hlimit, statusOutcome, if_neg hseverity, SequenceObservation.advances]
  cases o.kind <;> simp [ftDiscontinuity]

theorem Twins.judge_clean (h : Twins front seen numbers g g) (hrate : config.sampleRateLimitHz = 0)
    (hword : a.record.rdtSequence = word a.position) (hnear : ∀ f ∈ front, Near f a.position)
    (hahead : ∀ v ∈ numbers, Ahead v a.record.ftSequence) (ha : a.Clean configuration) :
    g.judge config a.record a.receivedAt =
      { deliver := Passes front a, outcome := none, rateLimited := false } := by
  rw [Serial.judge_accepted _ hrate h.ft hahead, recordVerdict_clean hrate ha.status, hword,
    rdtObserve_passes h.fresh h.stands hnear]

/-- The front moves to a record that passes it and stays where it is otherwise. -/
theorem front_max (front : Option Int) (a : Sighting) :
    some (front.elim a.position (max a.position)) =
      if Passes front a then some a.position else some (front.getD a.position) := by
  cases front with
  | none => rfl
  | some f =>
    by_cases hlt : f < a.position
    · simp [Passes, hlt, le_of_lt hlt]
    · simp [Passes, hlt, not_lt.mp hlt]

/-- Of clean records those are delivered that are ahead of all before them. -/
theorem Twins.serve_clean (h : Twins front seen numbers g g) (hrate : config.sampleRateLimitHz = 0)
    (hs : Sighted front seen numbers as) (has : ∀ a ∈ as, a.Clean configuration) :
    g.serve config configuration (as.map (·.received)) =
      ((advancing front as).map (·.sample configuration), none) := by
  induction as generalizing front seen numbers g with
  | nil => rfl
  | cons a as ih =>
    have ha := has a List.mem_cons_self
    obtain ⟨hword, hnear, hrest⟩ := hs
    rw [ha.original, if_neg (by simp)] at hrest
    obtain ⟨hahead, hrest⟩ := hrest
    obtain ⟨-, htwins⟩ := h.original configuration hrate hword hnear hahead
    have hjudge := h.judge_clean hrate hword hnear hahead ha
    have htwins := htwins (by rw [hjudge])
    have has : ∀ b ∈ as, b.Clean configuration := fun b hb => has b (List.mem_cons_of_mem _ hb)
    have hfinite : finiteAxes (makeSample configuration a.record a.receivedAt) = true := ha.finite
    cases hpasses : Passes front a with
    | true =>
      have hdispose : dispose configuration a.record a.receivedAt
          (g.judge config a.record a.receivedAt) = .deliver (a.sample configuration) none := by
        rw [hjudge, hpasses]
        simp [dispose, hfinite, Sighting.sample]
      rw [front_max, if_pos hpasses] at htwins hrest
      have hserved := ih (htwins.deliver (a.sample configuration)) hrest has
      rw [advancing, if_pos hpasses]
      simp only [List.map_cons, Sighting.received, Serial.serve, hdispose] at hserved ⊢
      rw [hserved]
    | false =>
      have hdispose : dispose configuration a.record a.receivedAt
          (g.judge config a.record a.receivedAt) = .finish none := by
        rw [hjudge, hpasses]
        rfl
      obtain ⟨f, rfl⟩ : ∃ f, front = some f := by
        cases front with
        | none => cases hpasses
        | some f => exact ⟨f, rfl⟩
      rw [front_max, if_neg (by simp [hpasses])] at htwins hrest
      have hserved := ih htwins hrest has
      rw [advancing, if_neg (by simp [hpasses])]
      simp only [List.map_cons, Sighting.received, Serial.serve, hdispose] at hserved ⊢
      exact hserved

end

/-! ## Runs -/

/-- The result of the last record, also while the failure of the callback is due. -/
def Due.outcome : Due D → Option SessionResult
  | .copyFailed outcome => outcome
  | due => due.result

section
variable [DecidableEq D] [Double D]

/-- Outside an open session nothing is due, and an open session has a configuration. -/
structure Serial.Settled (g : Serial D) : Prop where
  due : g.phase ≠ .open → g.due = .nothing
  configuration : g.phase = .open → ∃ configuration, g.configuration = some configuration
  outcome : ∀ result, g.due.outcome = some result → result.ofRecord = true

omit [DecidableEq D] in
theorem Serial.hear_outcome :
    (g.hear config configuration a.record a.receivedAt).due.outcome =
      (g.hear config configuration a.record a.receivedAt).due.result := by
  simp only [hear]
  cases dispose configuration a.record a.receivedAt (g.judge config a.record a.receivedAt) with
  | finish outcome => cases outcome <;> rfl
  | deliver sample outcome => rfl

omit [DecidableEq D] [Double D] in
theorem Due.after_outcome (outcome : Option SessionResult) :
    (Due.after outcome : Due D).outcome = outcome := by
  cases outcome <;> rfl

omit [DecidableEq D] [Double D] in
/-- What is due is of an open session, before and after a report. -/
theorem Serial.Settled.reported (h : g.Settled)
    (hdue : g.due ≠ .nothing) (hsame : g'.phase = g.phase ∧ g'.configuration = g.configuration)
    (houtcome : ∀ result, g'.due.outcome = some result → result.ofRecord = true) : g'.Settled := by
  have hopen : g.phase = .open := by
    by_contra hclosed
    exact hdue (h.due hclosed)
  refine ⟨fun hclosed => absurd (hsame.1.trans hopen) hclosed, fun _ => ?_, houtcome⟩
  rw [hsame.2]
  exact h.configuration hopen

theorem Serial.settled_step {e : Event D} (h : g.Settled) (hstep : g.step config e = some g') :
    g'.Settled := by
  have hnothing : ∀ result, (Due.nothing : Due D).outcome = some result → result.ofRecord = true :=
    fun _ h => by cases h
  cases e with
  | returned t call => cases call <;> cases hstep <;> exact ⟨h.due, h.configuration, h.outcome⟩
  | created =>
    simp only [step] at hstep
    split at hstep <;> cases hstep
    exact ⟨h.due, h.configuration, h.outcome⟩
  | sessionBegan =>
    simp only [step] at hstep
    split at hstep <;> cases hstep
    exact ⟨fun _ => ‹_›, (fun h => by cases h), h.outcome⟩
  | discovered | discoveryFailed =>
    simp only [step] at hstep
    split at hstep <;> cases hstep
    have hopening := ‹g.phase = .opening›
    exact ⟨h.due, fun hopen => absurd (hopening.symm.trans hopen) (by simp), h.outcome⟩
  | connected =>
    simp only [step] at hstep
    split at hstep <;> cases hstep
    exact ⟨fun _ => ‹_›, fun _ => ⟨_, ‹_›⟩, h.outcome⟩
  | processed k x =>
    simp only [step] at hstep
    split at hstep
    · rename_i hdue hopen hconfiguration
      split at hstep <;> cases hstep
      refine ⟨fun hclosed => absurd hopen hclosed, fun _ => ⟨_, hconfiguration⟩, fun r hr => ?_⟩
      rw [hear_outcome (a := ⟨0, x.record, x.receivedAt, false⟩)] at hr
      exact hear_result hr
    · cases hstep
  | invoked k sample =>
    simp only [step] at hstep
    split at hstep
    · rename_i s outcome hdue
      split at hstep <;> cases hstep
      have houtcome := h.outcome
      rw [hdue] at houtcome
      exact h.reported (by simp [hdue]) ⟨rfl, rfl⟩ houtcome
    · cases hstep
  | copyFailed k =>
    simp only [step] at hstep
    split at hstep <;> cases hstep
    rename_i hdue
    have houtcome := h.outcome
    rw [hdue] at houtcome
    exact h.reported (by simp [hdue]) ⟨rfl, rfl⟩ houtcome
  | callbackError k =>
    have hafter : ∀ outcome : Option SessionResult,
        (∀ result, outcome = some result → result.ofRecord = true) → ∀ result,
          (Due.after (callbackFailureOutcome config outcome) : Due D).outcome = some result →
            result.ofRecord = true := by
      intro outcome houtcome result hresult
      rw [Due.after_outcome] at hresult
      unfold callbackFailureOutcome at hresult
      split at hresult
      · exact houtcome result hresult
      · cases hresult
        rfl
    have houtcome := h.outcome
    simp only [step] at hstep
    split at hstep <;> cases hstep <;> rename_i hdue <;> rw [hdue] at houtcome
    · exact h.reported (by simp [hdue]) ⟨rfl, rfl⟩ (hafter _ houtcome)
    · exact h.reported (by simp [hdue]) ⟨rfl, rfl⟩ (hafter _ houtcome)
  | delivered k sample =>
    have houtcome := h.outcome
    obtain ⟨outcome, hdue, rfl⟩ := step_delivered hstep
    rcases hdue with hdue | hdue <;> rw [hdue] at houtcome
    all_goals
      refine h.reported (by simp [hdue]) ⟨rfl, rfl⟩ fun result hr => ?_
      exact houtcome result ((Due.after_outcome _).symm.trans hr)
  | sessionEnded k outcome =>
    rcases step_sessionEnded hstep with ⟨hdue, rfl, -, -⟩ | ⟨hdue, rfl⟩
    · exact ⟨fun _ => hdue, (fun h => by cases h), h.outcome⟩
    · exact ⟨fun _ => rfl, (fun h => by cases h), hnothing⟩
  | published | runEnded =>
    simp only [step] at hstep
    split at hstep <;> cases hstep
    exact ⟨fun _ => ‹_›, (fun h => by cases h), h.outcome⟩
  | _ => cases hstep; exact h

theorem Serial.settled_of_run (hrun : Serial.run config {} l = some g) : g.Settled := by
  induction l using List.reverseRecOn generalizing g with
  | nil =>
    cases hrun
    exact ⟨fun _ => rfl, (fun h => by cases h), fun _ h => by cases h⟩
  | append_singleton l e ih =>
    obtain ⟨g₁, hrun, hstep⟩ := Serial.run_append.mp hrun
    rw [Serial.run_single] at hstep
    exact settled_step (ih hrun) hstep

/-- Without a session that connects nothing more is reported of records. -/
theorem Serial.run_unopened (hrun : g.run config l = some g') (h : g.Settled)
    (hclosed : g.phase ≠ .open) (hplain : ∀ e ∈ l, e.plain = true)
    (hconnected : ∀ n s, .connected n s ∉ l) :
    heard l = [] ∧ handed l = [] ∧ g'.phase ≠ .open := by
  induction l generalizing g with
  | nil => cases hrun; exact ⟨rfl, rfl, hclosed⟩
  | cons e l ih =>
    have hstep : ∃ g₁, g.step config e = some g₁ ∧ g₁.run config l = some g' := by
      simpa [run, Option.bind_eq_some_iff] using hrun
    obtain ⟨g₁, hstep, hrest⟩ := hstep
    have hdue := h.due hclosed
    have hrest' := fun hphase => ih hrest (settled_step h hstep) hphase
      (fun e he => hplain e (List.mem_cons_of_mem _ he))
      fun n s hmem => hconnected n s (List.mem_cons_of_mem _ hmem)
    cases e with
    | connected n s => exact absurd List.mem_cons_self (hconnected n s)
    | processed => simp [step, hdue, hclosed] at hstep
    | delivered => simp [step, hdue] at hstep
    | returned t call => cases call <;> cases hstep <;> exact hrest' hclosed
    | sessionBegan =>
      have hplain := hplain _ List.mem_cons_self
      cases hplain
    | _ =>
      simp only [step] at hstep
      (repeat' split at hstep) <;> cases hstep <;> exact hrest' (by first | exact hclosed | simp)

/-- The failure of the callback stays due until it is reported. -/
theorem Serial.run_copyFailed {outcome : Option SessionResult} (hrun : g.run config l = some g')
    (h : g.Settled) (hdue : g.due = .copyFailed outcome) (hplain : ∀ e ∈ l, e.plain = true) :
    g'.due = .copyFailed outcome := by
  induction l generalizing g with
  | nil => cases hrun; exact hdue
  | cons e l ih =>
    have hstep : ∃ g₁, g.step config e = some g₁ ∧ g₁.run config l = some g' := by
      simpa [run, Option.bind_eq_some_iff] using hrun
    obtain ⟨g₁, hstep, hrest⟩ := hstep
    have hrest' := fun hdue => ih hrest (settled_step h hstep) hdue
      fun e he => hplain e (List.mem_cons_of_mem _ he)
    have hplain := hplain _ List.mem_cons_self
    cases e with
    | callbackError => cases hplain
    | returned t call => cases call <;> cases hstep <;> exact hrest' hdue
    | created =>
      simp only [step] at hstep
      split at hstep <;> cases hstep
      exact hrest' hdue
    | sessionBegan | discovered | discoveryFailed | connected | processed | invoked | copyFailed
    | delivered | sessionEnded | published | runEnded => simp [step, hdue] at hstep
    | _ => cases hstep; exact hrest' hdue

/-- The reports after a `bias` in terms of the records: what was in hand comes first. -/
theorem Serial.run_served (h : g.Settled) (hopen : g.phase = .open)
    (hconfiguration : g.configuration = some configuration) (hrun : g.run config l = some g')
    (hplain : ∀ e ∈ l, e.plain = true) {served : List (Sample D)}
    (hserve : ∀ g₁ : Serial D, g₁.rdt = g.rdt → g₁.ft = g.ft →
      g₁.serve config configuration (heard l) = (served, none)) :
    handed l <+: g.due.pending ++ served ∧
      (g'.due = .nothing → g'.phase = .open → handed l = g.due.pending ++ served) := by
  have hresult : ∀ result, g.due.result = some result → result.ofRecord = true := by
    intro result hr
    refine h.outcome result ?_
    cases hdue : g.due <;> rw [hdue] at hr <;> first | exact hr | cases hr
  have hall := run_resume hrun hopen hconfiguration hresult hplain
  have hends : g'.phase = .open → endings l = [] := by
    intro hopen'
    by_contra hne
    exact absurd (hopen'.symm.trans (run_endings hrun hplain hne).1) (by simp)
  have hprefix : ∀ (samples : List (Sample D)) (result : Option SessionResult),
      g.resume config configuration (heard l) = (samples, result) →
        handed l <+: samples ∧ (g'.due = .nothing → handed l = samples) ∧
          (g'.due = .nothing → g'.phase = .open → result = none) := by
    intro samples result hresume
    rw [hresume] at hall
    obtain ⟨rfl, rfl⟩ := Prod.mk.inj hall
    refine ⟨List.prefix_append .., fun hdue' => ?_, fun hdue' hopen' => ?_⟩
    · simp [hdue', Due.pending]
    · simp [hdue', hends hopen', Due.result]
  have hdelivered := fun s => hserve (g.deliver s none) rfl rfl
  cases hdue : g.due with
  | nothing =>
    obtain ⟨hpre, heq, -⟩ := hprefix _ _ ((resume_nothing hdue).trans (hserve g rfl rfl))
    exact ⟨hpre, fun hdue' _ => heq hdue'⟩
  | sample s outcome | callback s outcome =>
    cases outcome with
    | none =>
      obtain ⟨hpre, heq, -⟩ := hprefix (s :: served) none
        (by simp only [resume, hdue, hdelivered])
      exact ⟨hpre, fun hdue' _ => heq hdue'⟩
    | some result =>
      obtain ⟨hpre, -, hgoes⟩ := hprefix [s] (some result)
        (by simp only [resume, hdue])
      exact ⟨hpre.trans (List.prefix_append [s] served), fun hdue' hopen' =>
        absurd (hgoes hdue' hopen') (by simp)⟩
  | ending result =>
    obtain ⟨hpre, -, hgoes⟩ := hprefix [] (some result)
      (by simp only [resume, hdue])
    exact ⟨hpre.trans List.nil_prefix, fun hdue' hopen' => absurd (hgoes hdue' hopen') (by simp)⟩
  | copyFailed outcome =>
    have hstays := run_copyFailed hrun h hdue hplain
    obtain ⟨hpre, -, -⟩ := hprefix [] none (by simp only [resume, hdue])
    exact ⟨hpre.trans List.nil_prefix, fun hdue' => absurd (hstays.symm.trans hdue') (by simp)⟩

/-! ## No record between the commands and the reset -/

/-- The call of `bias` on thread `t` ends. -/
def Event.endsBias (t : Tid) : Event D → Bool
  | .returned t' .bias | .threw t' .bias _ => t' = t
  | _ => false

/-- Whether thread `t` has sent `SetSoftwareBias` and is still in `bias`; `none` once a record was
processed there. -/
def duringBias (t : Tid) : Option Bool → Event D → Option Bool
  | none, _ => none
  | some during, e =>
    match e with
    | .sent t' _ .setSoftwareBias true => some (during || t' = t)
    | .processed .. => if during then none else some false
    | e => some (during && !e.endsBias t)

/-- The thread stands after its `SetSoftwareBias`. -/
def ApiPc.biased : ApiPc D → Bool
  | .bias .restart | .bias .reset => true
  | _ => false

omit [DecidableEq D] [Double D] in
theorem duringBias_keep {during : Bool}
    (hkeep : ∀ e ∈ l, duringBias t (some during) e = some during) :
    l.foldl (duringBias t) (some during) = some during := by
  induction l with
  | nil => rfl
  | cons e l ih =>
    rw [List.foldl_cons, hkeep e List.mem_cons_self]
    exact ih fun e he => hkeep e (List.mem_cons_of_mem _ he)

omit [DecidableEq D] [Double D] in
theorem send_duringBias {i : Impl D} {t' : Tid} {command : Command} {error : Option String}
    {events : List (Event D)} {during : Bool} (h : i.send t' command c = some (error, events)) :
    events.foldl (duringBias t) (some during) =
      some (during || (command = .setSoftwareBias && error = none && t' = t)) := by
  unfold Impl.send at h
  split at h
  · cases h
    simp
  · cases c <;> cases h <;> cases command <;> simp [duringBias, Event.endsBias]

omit [DecidableEq D] [Double D] in
theorem send_undisturbed {i : Impl D} {t' : Tid} {command : Command} {error : Option String}
    {events : List (Event D)} {during : Bool} (hcommand : command ≠ .setSoftwareBias)
    (h : i.send t' command c = some (error, events)) :
    ∀ e ∈ events, duringBias t (some during) e = some during := by
  unfold Impl.send at h
  split at h
  · cases h
    simp
  · cases c <;> cases h <;> cases command <;> simp_all [duringBias, Event.endsBias]

omit [DecidableEq D] [Double D] in
/-- The other entry points do nothing to a `bias`. -/
theorem apiNext_undisturbed {t' : Tid} {p : ApiPc D} {r : ApiNext D} (t : Tid) (during : Bool)
    (hnext : apiNext w t' c p = some r) (hp : ∀ q, p ≠ .bias q) :
    ∀ e ∈ r.events, duringBias t (some during) e = some during := by
  cases apiNext_step hnext with
  | stopCommand _ hsend => exact send_undisturbed (by simp) hsend
  | biasLock | biasRecord | biasAllowed | biasDenied | biasSent | biasFailed | biasRestarted
  | biasRestartFailed | biasReset => exact absurd rfl (hp _)
  | _ => simp [duringBias, Event.endsBias]

omit [DecidableEq D] [Double D] in
/-- Another thread in `bias` does nothing to it. -/
theorem biasNext_undisturbed {t' : Tid} {q : BiasPc} {r : ApiNext D} {during : Bool}
    (hnext : biasNext w t' c q = some r) (hne : t' ≠ t) :
    r.events.foldl (duringBias t) (some during) = some during := by
  cases q with
  | lock | record => cases hnext; rfl
  | check =>
    simp only [biasNext] at hnext
    split at hnext <;> cases hnext <;> simp [duringBias, Event.endsBias, hne]
  | bias | restart =>
    simp only [biasNext] at hnext
    split at hnext <;> cases hnext
    · rw [send_duringBias ‹_›]
      simp [hne]
    · rw [List.foldl_append, send_duringBias ‹_›]
      simp [duringBias, Event.endsBias, hne]
  | reset => cases hnext; simp [duringBias, Event.endsBias, hne]

omit [DecidableEq D] [Double D] in
/-- The `bias` itself, from its command to its end. -/
theorem biasNext_duringBias {q : BiasPc} {r : ApiNext D} {during : Bool}
    (hnext : biasNext w t c q = some r) (h : during = true → q = .restart ∨ q = .reset) :
    ∃ during', r.events.foldl (duringBias t) (some during) = some during' ∧
      (during' = true → r.pc.biased = true) := by
  cases q with
  | lock | record => cases hnext; exact ⟨during, rfl, fun hd => by simpa using h hd⟩
  | check =>
    simp only [biasNext] at hnext
    split at hnext <;> cases hnext
    · exact ⟨during, rfl, fun hd => by simpa using h hd⟩
    · exact ⟨false, by simp [duringBias, Event.endsBias], by simp⟩
  | bias =>
    simp only [biasNext] at hnext
    split at hnext <;> cases hnext
    · exact ⟨_, send_duringBias ‹_›, fun _ => rfl⟩
    · refine ⟨false, ?_, by simp⟩
      rw [List.foldl_append, send_duringBias ‹_›]
      simp [duringBias, Event.endsBias]
  | restart =>
    simp only [biasNext] at hnext
    split at hnext <;> cases hnext
    · exact ⟨_, send_duringBias ‹_›, fun _ => rfl⟩
    · refine ⟨false, ?_, by simp⟩
      rw [List.foldl_append, send_duringBias ‹_›]
      simp [duringBias, Event.endsBias]
  | reset =>
    cases hnext
    exact ⟨false, by simp [duringBias, Event.endsBias], by simp⟩

omit [DecidableEq D] [Double D] in
theorem send_command {i : Impl D} {t t' : Tid} {s : Nat} {command command' : Command} {ok : Bool}
    {error : Option String} {events : List (Event D)}
    (h : i.send t command c = some (error, events)) (he : .sent t' s command' ok ∈ events) :
    command' = command := by
  unfold Impl.send at h
  split at h
  · cases h
    cases he
  · cases c <;> cases h <;> simp_all

/-- No worker sends `SetSoftwareBias`. -/
theorem runNext_no_bias {worker : Worker D} {p : RunPc D} {r : RunNext D}
    (hnext : runNext config w n c worker p = some r) :
    ∀ t s ok, .sent t s .setSoftwareBias ok ∉ r.events := by
  intro t s ok he
  cases ho : p.onWire with
  | false => simpa [Wire.heeds] using (runNext_quiet hnext ho).events _ he
  | true =>
    cases p with
    | top =>
      simp only [runNext] at hnext
      split at hnext <;> cases hnext <;> simp at he
    | close context =>
      simp only [runNext] at hnext
      split at hnext
      · split at hnext <;> cases hnext
        exact absurd (send_command ‹_› he) (by simp)
      · cases hnext
        cases he
    | closeTransport context =>
      cases hnext
      simp only [Impl.closedEvents] at he
      split at he <;> simp at he
    | session q =>
      cases q with
      | connecting => cases hnext; cases he
      | connect =>
        simp only [runNext, sessionNext, Impl.closedEvents] at hnext
        split at hnext <;> cases hnext
        · split at he <;> simp at he
        · cases he
      | sendStart =>
        simp only [runNext, sessionNext] at hnext
        split at hnext <;> cases hnext
        · exact absurd (send_command ‹_› he) (by simp)
        · exact absurd (send_command ‹_› he) (by simp)
      | record q =>
        cases q with
        | account =>
          simp only [runNext, sessionNext, recordNext] at hnext
          split at hnext
          · cases hnext
            cases he
          · split at hnext <;> cases hnext
            · rename_i outcome _
              cases outcome <;> simp [afterRecord] at he
            · simp at he
        | _ => cases ho
      | _ => cases ho
    | _ => cases ho

/-- The records of a run and the `bias` on a thread, which holds `record_mutex_`. -/
theorem Reachable.duringBias (h : Reachable config w l) (t : Tid) :
    ∃ during, l.foldl (Client.duringBias t) (some false) = some during ∧
      (during = true → (w.api t).biased = true) := by
  refine h.induction (I := fun v k => ∃ during, k.foldl (Client.duringBias t) (some false) =
    some during ∧ (during = true → (v.api t).biased = true)) (fun _ => ⟨false, rfl, by simp⟩) ?_
  rintro v v' k k' hv ⟨during, hfold, hi⟩ hm
  simp only [List.foldl_append, hfold]
  cases hm with
  | tick => exact ⟨during, rfl, hi⟩
  | spurious t' => exact ⟨during, rfl, hi⟩
  | call t' call hidle hmay =>
    refine ⟨during, by simp [Client.duringBias, Event.endsBias], fun hduring => ?_⟩
    have hne : t ≠ t' := by
      rintro rfl
      simp [hidle, ApiPc.biased] at hi
      simp [hi] at hduring
    rw [World.enter_api, Function.update_of_ne hne]
    exact hi hduring
  | api t' c r hnext htake =>
    rw [World.applyApi_api]
    by_cases ht : t' = t
    · subst ht
      rw [Function.update_self]
      cases hpc : v.api t' with
      | bias q =>
        rw [hpc] at hnext hi
        refine biasNext_duringBias hnext fun hduring => ?_
        have hbiased := hi hduring
        cases q <;> simp_all [ApiPc.biased]
      | _ =>
        have hidle : during = false := by
          by_contra hduring
          simpa [hpc, ApiPc.biased] using hi (eq_true_of_ne_false hduring)
        refine ⟨during, duringBias_keep (apiNext_undisturbed _ _ hnext ?_), by simp [hidle]⟩
        simp [hpc]
    · rw [Function.update_of_ne (Ne.symm ht)]
      refine ⟨during, ?_, hi⟩
      cases hpc : v.api t' with
      | bias q =>
        rw [hpc] at hnext
        exact biasNext_undisturbed hnext ht
      | _ => exact duringBias_keep (apiNext_undisturbed _ _ hnext (by simp [hpc]))
  | run n c r hnext htake =>
    refine ⟨during, duringBias_keep fun e he => ?_, fun hduring => hi hduring⟩
    have hrun := runNext_events hnext e he
    cases e with
    | sent t' s command ok =>
      cases command with
      | setSoftwareBias => exact absurd he (runNext_no_bias hnext t' s ok)
      | _ => simp [Client.duringBias, Event.endsBias]
    | processed k x =>
      cases hduring : during with
      | false => rfl
      | true =>
        -- both hold `record_mutex_`, and the callback of a worker does not
        have hheld : .record ∈ (v.api t).held := by
          have hbiased := hi hduring
          cases hpc : v.api t with
          | bias p => cases p <;> simp_all [ApiPc.biased, ApiPc.held, BiasPc.held]
          | _ => simp [hpc, ApiPc.biased] at hbiased
        have hrecord : .record ∈ (v.workers n).pc.held := by
          rw [(runNext_processed hnext he).2.1]
          exact List.mem_singleton_self _
        have ho := hv.orderly
        have ht := (ho.locked .record t).mpr (.inl hheld)
        have hn := (ho.locked .record (.worker n)).mpr (.inr hrecord)
        obtain rfl := Option.some.inj (ht.symm.trans hn)
        have hne : v.api (.worker n) ≠ .idle := by
          intro hidle
          rw [hidle] at hheld
          cases hheld
        rw [show (v.workers n).pc.held = [] from
          workerHeld_of_inCallback (ho.nested.inCallback n hne)] at hrecord
        cases hrecord
    | entered | returned | threw | waited | healthRead | latestRead | faultRead | created
    | joined => cases hrun
    | _ => simp [Client.duringBias, Event.endsBias]

omit [DecidableEq D] [Double D] in
theorem foldl_duringBias_none (l : List (Event D)) : l.foldl (duringBias t) none = none := by
  induction l with
  | nil => rfl
  | cons e l ih => exact ih

omit [DecidableEq D] [Double D] in
/-- From the command to the end of the call there is no record. -/
theorem heard_duringBias (hends : ∀ e ∈ l, e.endsBias t = false)
    (hfold : l.foldl (duringBias t) (some true) ≠ none) : heard l = [] := by
  induction l with
  | nil => rfl
  | cons e l ih =>
    have hend := hends e List.mem_cons_self
    have hrest := ih fun e he => hends e (List.mem_cons_of_mem _ he)
    cases e with
    | processed k x => exact absurd (foldl_duringBias_none l) hfold
    | sent t' s command ok =>
      cases command <;> cases ok <;> exact hrest (by simpa [duringBias, Event.endsBias] using hfold)
    | _ => exact hrest (by simpa [duringBias, hend] using hfold)

end

/-- In every run no record is processed between the `SetSoftwareBias` of a `bias` and the end of the
call, by return or exception. And without a rate limit, after the return of `bias`, as long as no
session connects, no callback fails and there is no further `bias`: of clean records of the old
stream and of the new one behind them, each with increasing positions, those are delivered that the
old stream still has, and of the new one those that have passed it. -/
theorem bias_restarts [DecidableEq D] [Double D] (h : Reachable config w l) :
    (∀ t l₀ s l' l'', l = l₀ ++ .sent t s .setSoftwareBias true :: (l' ++ l'') →
      (∀ e ∈ l', e.endsBias t = false) → heard l' = []) ∧
    ∀ t l₁ l₂, l = l₁ ++ .returned t .bias :: l₂ → config.sampleRateLimitHz = 0 →
      (∀ e ∈ l₂, e.plain = true) → (∀ n s, .connected n s ∉ l₂) →
      ∃ g, Serial.run config {} (l₁ ++ [.returned t .bias]) = some g ∧
        (g.phase ≠ .open → heard l₂ = [] ∧ handed l₂ = []) ∧
        (g.phase = .open → ∃ configuration, g.configuration = some configuration ∧
          ∀ old new : List Sighting, (old ++ new).map (·.received) = heard l₂ →
            Sighted none [] (ftBaseline g.ft) (old ++ new) →
            (∀ a ∈ old ++ new, a.Clean configuration) → Increasing old → Increasing new →
            let kept := old ++ new.filter (Passes (old.getLast?.map (·.position)))
            handed l₂ <+: g.due.pending ++ kept.map (·.sample configuration) ∧
              ∀ k, (w.workers k).pc = .session .loop →
                handed l₂ = g.due.pending ++ kept.map (·.sample configuration)) := by
  refine ⟨fun t l₀ s l' l'' heq hends => ?_, fun t l₁ l₂ heq hrate hplain hconnected => ?_⟩
  · subst heq
    obtain ⟨during, hfold, -⟩ := h.duringBias t
    simp only [List.foldl_append, List.foldl_cons] at hfold
    cases hbefore : l₀.foldl (duringBias t) (some false) with
    | none =>
      rw [hbefore] at hfold
      simp [duringBias, foldl_duringBias_none] at hfold
    | some before =>
      refine heard_duringBias (t := t) hends fun hnone => ?_
      rw [hbefore] at hfold
      simp [duringBias, hnone, foldl_duringBias_none] at hfold
  subst heq
  obtain ⟨g', hrun, hserial⟩ := h.serialised
  rw [List.append_cons] at hrun
  obtain ⟨g, hrun, hrest⟩ := Serial.run_append.mp hrun
  have hsettled := Serial.settled_of_run hrun
  refine ⟨g, hrun, fun hclosed => ?_, fun hopen => ?_⟩
  · obtain ⟨hheard, hhanded, -⟩ := Serial.run_unopened hrest hsettled hclosed hplain hconnected
    exact ⟨hheard, hhanded⟩
  obtain ⟨configuration, hconfiguration⟩ := hsettled.configuration hopen
  refine ⟨configuration, hconfiguration, fun old new hheard hs hclean hold hnew => ?_⟩
  have hreset : g.rdt.hasLast = false := by
    obtain ⟨g₀, -, hstep⟩ := Serial.run_append.mp hrun
    rw [Serial.run_single] at hstep
    cases hstep
    rfl
  have hserve : ∀ g₁ : Serial D, g₁.rdt = g.rdt → g₁.ft = g.ft →
      g₁.serve config configuration (heard l₂) =
        ((old ++ new.filter (Passes (old.getLast?.map (·.position)))).map
          (·.sample configuration), none) := by
    intro g₁ hrdt hft
    have htwins : Twins none [] (ftBaseline g.ft) g₁ g₁ := {
      rdt := rfl
      fresh := fun _ => by rw [hrdt]; exact hreset
      stands := fun _ hf => by cases hf
      seen := fun _ hx => by cases hx
      ft := fun hlast => by simp_all [ftBaseline]
      ft' := fun hlast => by simp_all [ftBaseline] }
    rw [← hheard, htwins.serve_clean hrate hs hclean, advancing_append hold hnew]
  obtain ⟨hpre, heq⟩ := Serial.run_served hsettled hopen hconfiguration hrest hplain hserve
  refine ⟨hpre, fun k hk => ?_⟩
  obtain ⟨hopen', hdue'⟩ := hserial.loop hk
  exact heq hdue' hopen'

/-! ### A run -/

/-- A record at a position of its stream, received at once. -/
def streamed (position ft : Nat) : Sighting where
  position
  record := {
    rdtSequence := position.toUInt32, ftSequence := ft.toUInt32, status := 0
    fx := 0, fy := 0, fz := 0, tx := 0, ty := 0, tz := 0 }
  receivedAt := 1
  late := false

/-- After the `bias` one more record of the old stream, and two of the new one. -/
def restartedClient : World Rat × List (Event Rat) :=
  (machine (demoConfig .reconnect)).perform (World.initial 1)
    (startActions (.client 0) ++ openActions 0 ++ receiveActions 0 (plainRecord 5 1) ++
      biasActions (.client 1) ++ receiveActions 0 (plainRecord 6 2) ++
      (receiveActions 0 (plainRecord 1 3)).take 11 ++ receiveActions 0 (plainRecord 7 4))

/-- The first record of the new stream is lost. -/
theorem bias_restarts_restartedClient :
    (heard (restartedClient.2.drop 14)).length = 3 ∧ ∃ configuration : SensorConfiguration Rat,
      handed (restartedClient.2.drop 14) =
        [streamed 6 2, streamed 7 4].map (·.sample configuration) := by
  have hsplit : restartedClient.2 =
      restartedClient.2.take 13 ++ .returned (.client 1) .bias :: restartedClient.2.drop 14 := by
    decide +kernel
  have h : Reachable (demoConfig .reconnect) restartedClient.1
      (restartedClient.2.take 13 ++ .returned (.client 1) .bias :: restartedClient.2.drop 14) :=
    hsplit ▸ ⟨1, Machine.run_perform (by decide +kernel)⟩
  obtain ⟨g, hrun, -, hopen⟩ := (bias_restarts h).2 _ _ _ rfl rfl (by decide +kernel) (by
    have hnone : (restartedClient.2.drop 14).all (fun
        | .connected .. => false
        | _ => true) = true := by decide +kernel
    intro n s he
    simpa using List.all_eq_true.mp hnone _ he)
  have hstate : (Serial.run (demoConfig .reconnect) {}
      (restartedClient.2.take 13 ++ [.returned (.client 1) .bias])).map (fun g =>
        (g.phase, g.ft.previous, g.ft.hasLast, g.due.pending.length,
          g.configuration.map fun configuration => [streamed 6 2, streamed 1 3, streamed 7 4].all
            fun a => finiteAxes (a.sample configuration))) =
      some (.open, 1, true, 0, some true) := by
    decide +kernel
  rw [hrun] at hstate
  simp only [Option.map_some, Option.some.injEq, Prod.mk.injEq] at hstate
  obtain ⟨hphase, hprevious, hlast, hpending, hfinite⟩ := hstate
  obtain ⟨configuration, hconfiguration, hserves⟩ := hopen hphase
  rw [hconfiguration] at hfinite
  have hfinite := List.all_eq_true.mp (Option.some.inj hfinite)
  have hs : Sighted none [] (ftBaseline g.ft) [streamed 6 2, streamed 1 3, streamed 7 4] := by
    simp [Sighted, streamed, ftBaseline, Near, Ahead, hprevious, hlast]
    decide
  have hclean : ∀ a ∈ [streamed 6 2, streamed 1 3, streamed 7 4], a.Clean configuration := by
    intro a ha
    obtain ⟨position, ft, rfl⟩ : ∃ position ft, a = streamed position ft := by
      simp only [List.mem_cons, List.not_mem_nil, or_false] at ha
      rcases ha with rfl | rfl | rfl <;> exact ⟨_, _, rfl⟩
    refine ⟨rfl, ?_, hfinite _ ha⟩
    show classifyStatus 0 ≠ .error
    decide
  have hloops : (restartedClient.1.workers 0).pc.loops = true := by decide +kernel
  obtain ⟨-, hall⟩ := hserves [streamed 6 2] [streamed 1 3, streamed 7 4] (by decide +kernel) hs
    hclean (by simp [Increasing]) (by simp [Increasing, streamed])
  refine ⟨by decide +kernel, configuration, ?_⟩
  rw [hall 0 (RunPc.loops_iff.mp hloops), List.eq_nil_of_length_eq_zero hpending]
  simp [streamed, Passes]

end NetFT.Client
