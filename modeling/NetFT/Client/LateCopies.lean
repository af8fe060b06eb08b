import NetFT.Client.Serial
import NetFT.Client.Epoch

/-! Late copies of records in a session without a rate limit and without `bias`. What the records of
a session give is a function of the records (`Serial.run_resume`). Under `Reconnect` further copies
of records that were received before change nothing in it, as long as the FT numbers advance past
them (`late_copies_ignored`); under `FailStop` the first one ends the session
(`late_copy_ends_session`). -/

namespace NetFT.Client
open Detail Library

variable {D : Type}

/-! ## What the records of a session give -/

/-- A record and the time at which it was received. -/
abbrev Received := RawRecord × TimePoint

/-- The records that were processed. -/
def heard (l : List (Event D)) : List Received :=
  l.filterMap fun
    | .processed _ x => some (x.record, x.receivedAt)
    | _ => none

/-- The samples that were delivered. -/
def handed (l : List (Event D)) : List (Sample D) :=
  l.filterMap fun
    | .delivered _ sample => some sample
    | _ => none

/-- The results with which records ended a session. -/
def endings (l : List (Event D)) : List SessionResult :=
  l.filterMap fun
    | .sessionEnded _ outcome => if outcome.result.ofRecord then some outcome.result else none
    | _ => none

/-- The sample in hand. -/
def Due.pending : Due D → List (Sample D)
  | .sample s _ | .callback s _ => [s]
  | _ => []

/-- The result that the last record has for its session. -/
def Due.result : Due D → Option SessionResult
  | .sample _ outcome | .callback _ outcome => outcome
  | .ending result => some result
  | _ => none

namespace Serial

/-- The samples that records give one after the other, with callbacks that return, and the result
with which one of them ends the session. -/
def serve [Double D] (config : Config D) (configuration : SensorConfiguration D) :
    Serial D → List Received → List (Sample D) × Option SessionResult
  | _, [] => ([], none)
  | g, (record, receivedAt) :: records =>
    match dispose configuration record receivedAt (g.judge config record receivedAt) with
    | .finish (some result) => ([], some result)
    | .deliver sample (some result) => ([sample], some result)
    | .finish none =>
      serve config configuration (g.hear config configuration record receivedAt) records
    | .deliver sample none =>
      let rest := serve config configuration
        ((g.hear config configuration record receivedAt).deliver sample none) records
      (sample :: rest.1, rest.2)

/-- What `serve` gives, from the middle of a record. -/
def resume [Double D] (config : Config D) (configuration : SensorConfiguration D) (g : Serial D)
    (records : List Received) : List (Sample D) × Option SessionResult :=
  match g.due with
  | .nothing => serve config configuration g records
  | .sample sample none | .callback sample none =>
    let rest := serve config configuration (g.deliver sample none) records
    (sample :: rest.1, rest.2)
  | .sample sample (some result) | .callback sample (some result) => ([sample], some result)
  | .ending result => ([], some result)
  | .copyFailed _ => ([], none)

end Serial

/-- A session goes on, without `bias` and with callbacks that return. -/
def Event.plain : Event D → Bool
  | .sessionBegan _ | .returned _ .bias | .copyFailed _ | .callbackError _ => false
  | _ => true

variable {config : Config D} {configuration : SensorConfiguration D} {w w' : World D} {n : Nat}
  {l l₁ l₂ : List (Event D)} {g g' : Serial D} {record : RawRecord} {receivedAt : TimePoint}
  {records : List Received}

theorem endings_ended (k : Nat) (outcome : SessionOutcome) :
    endings (.sessionEnded k outcome :: l) =
      (if outcome.result.ofRecord then [outcome.result] else []) ++ endings l := by
  cases hrecord : outcome.result.ofRecord <;> simp [endings, hrecord]

namespace Serial

section
variable [Double D]

theorem serve_cons : g.serve config configuration ((record, receivedAt) :: records) =
    (g.hear config configuration record receivedAt).resume config configuration records := by
  simp only [serve, resume, hear]
  cases hdispose : dispose configuration record receivedAt (g.judge config record receivedAt) with
  | finish outcome => cases outcome <;> simp [Due.of, Due.after]
  | deliver sample outcome => cases outcome <;> simp [Due.of]

theorem resume_nothing (h : g.due = .nothing) :
    g.resume config configuration records = g.serve config configuration records := by
  simp only [resume, h]

/-- What is due is of a record. -/
theorem hear_result {result : SessionResult}
    (h : (g.hear config configuration record receivedAt).due.result = some result) :
    result.ofRecord = true := by
  simp only [hear] at h
  cases hdispose : dispose configuration record receivedAt (g.judge config record receivedAt) with
  | finish outcome =>
    rw [hdispose] at h
    have houtcome : outcome = some result := by
      cases outcome with
      | none => cases h
      | some r => exact h
    rcases dispose_finish hdispose with ⟨-, hverdict⟩ | ⟨-, -, hsensor⟩
    · exact recordVerdict_ofRecord (hverdict.symm.trans houtcome)
    · obtain rfl := Option.some.inj (hsensor.symm.trans houtcome)
      rfl
  | deliver sample outcome =>
    rw [hdispose] at h
    exact recordVerdict_ofRecord ((dispose_deliver hdispose).2.2.2.symm.trans h)

end

section
variable [DecidableEq D] [Double D]

/-- After the session has ended nothing more is reported of its records. -/
theorem run_ended (hrun : g.run config l = some g') (hclosed : g.phase = .closed)
    (hdue : g.due = .nothing) (hplain : ∀ e ∈ l, e.plain = true) :
    heard l = [] ∧ handed l = [] ∧ endings l = [] ∧ g'.phase = .closed ∧ g'.due = .nothing := by
  induction l generalizing g with
  | nil => cases hrun; exact ⟨rfl, rfl, rfl, hclosed, hdue⟩
  | cons e l ih =>
    have hstep : ∃ g₁, g.step config e = some g₁ ∧ g₁.run config l = some g' := by
      simpa [run, Option.bind_eq_some_iff] using hrun
    obtain ⟨g₁, hstep, hrest⟩ := hstep
    have hrest' := fun hphase hnothing =>
      ih hrest hphase hnothing fun e he => hplain e (List.mem_cons_of_mem _ he)
    have he := hplain e List.mem_cons_self
    cases e with
    | returned t call =>
      cases call with
      | bias => cases he
      | _ => cases hstep; exact hrest' hclosed hdue
    | sessionBegan | copyFailed | callbackError => cases he
    | created =>
      simp only [step, hclosed, if_true] at hstep
      cases hstep
      exact hrest' rfl hdue
    | published | runEnded =>
      simp only [step, hdue] at hstep
      cases hstep
      exact hrest' rfl rfl
    | discovered | discoveryFailed | connected | processed | invoked | delivered | sessionEnded =>
      simp [step, hdue, hclosed] at hstep
    | _ => cases hstep; exact hrest' hclosed hdue

omit [DecidableEq D] in
theorem resume_nil : g.resume config configuration [] =
    (g.due.pending, g.due.result.toList.head?) := by
  unfold resume
  cases g.due with
  | nothing | copyFailed | ending => rfl
  | sample s outcome | callback s outcome => cases outcome <;> rfl

omit [DecidableEq D] in
/-- The sample in hand is delivered. -/
theorem resume_deliver {sample : Sample D} {outcome : Option SessionResult}
    (h : g.due = .sample sample outcome ∨ g.due = .callback sample outcome) :
    g.resume config configuration records =
      (sample :: ((g.deliver sample outcome).resume config configuration records).1,
        ((g.deliver sample outcome).resume config configuration records).2) := by
  rcases h with h | h <;> cases outcome <;> simp only [resume, h, deliver, Due.after]

/-- Only what is in hand is delivered. -/
theorem step_delivered {sample : Sample D} (hstep : g.step config (.delivered k sample) = some g') :
    ∃ outcome, (g.due = .sample sample outcome ∨ g.due = .callback sample outcome) ∧
      g' = g.deliver sample outcome := by
  simp only [step] at hstep
  split at hstep
  · rename_i s outcome hdue
    split at hstep <;> cases hstep
    rename_i heq
    exact ⟨outcome, .inl (heq ▸ hdue), by rw [heq]⟩
  · rename_i s outcome hdue
    split at hstep <;> cases hstep
    rename_i heq
    exact ⟨outcome, .inr (heq ▸ hdue), by rw [heq]⟩
  · cases hstep

/-- A session ends with the result of a record, or for another reason with nothing due. -/
theorem step_sessionEnded {outcome : SessionOutcome}
    (hstep : g.step config (.sessionEnded k outcome) = some g') :
    g.due = .nothing ∧ g' = { g with phase := .closed } ∧ g.phase ≠ .closed ∧
        (g.phase = .open → outcome.result.ofRecord = false) ∨
      g.due = .ending outcome.result ∧ g' = { g with phase := .closed, due := .nothing } := by
  simp only [step] at hstep
  split at hstep
  · rename_i hdue
    split at hstep <;> cases hstep
    rename_i hother
    exact .inl ⟨hdue, rfl, fun hclosed => hother (.inl hclosed),
      fun hopen => eq_false_of_ne_true fun h => hother (.inr ⟨h, fun _ => hopen⟩)⟩
  · rename_i result hdue
    split at hstep <;> cases hstep
    rename_i heq
    exact .inr ⟨by rw [hdue, heq.1], rfl⟩
  · cases hstep

/-- The reports of a session that has connected, in terms of its records. -/
theorem run_resume (hrun : g.run config l = some g') (hopen : g.phase = .open)
    (hconfiguration : g.configuration = some configuration)
    (hresult : ∀ result, g.due.result = some result → result.ofRecord = true)
    (hplain : ∀ e ∈ l, e.plain = true) :
    g.resume config configuration (heard l) =
      (handed l ++ g'.due.pending, (endings l ++ g'.due.result.toList).head?) := by
  induction l generalizing g with
  | nil => cases hrun; exact resume_nil
  | cons e l ih =>
    have hstep : ∃ g₁, g.step config e = some g₁ ∧ g₁.run config l = some g' := by
      simpa [run, Option.bind_eq_some_iff] using hrun
    obtain ⟨g₁, hstep, hrest⟩ := hstep
    have hplain' : ∀ e ∈ l, e.plain = true := fun e he => hplain e (List.mem_cons_of_mem _ he)
    have he := hplain e List.mem_cons_self
    cases e with
    | returned t call =>
      cases call with
      | bias => cases he
      | _ => cases hstep; exact ih hrest hopen hconfiguration hresult hplain'
    | sessionBegan | copyFailed | callbackError => cases he
    | created | discovered | discoveryFailed | connected => simp [step, hopen] at hstep
    | processed k x =>
      simp only [step, hopen, hconfiguration] at hstep
      split at hstep
      · rename_i hdue _ heq
        cases heq
        split at hstep <;> cases hstep
        rw [resume_nothing hdue]
        show serve config configuration g ((x.record, x.receivedAt) :: heard l) = _
        rw [serve_cons]
        exact ih hrest hopen hconfiguration (fun result h => hear_result h) hplain'
      · cases hstep
    | invoked k sample =>
      simp only [step] at hstep
      split at hstep
      · rename_i s outcome hdue
        split at hstep <;> cases hstep
        have hsame : g.resume config configuration (heard l) =
            ({ g with due := .callback s outcome } : Serial D).resume config configuration
              (heard l) := by
          rw [resume_deliver (.inl hdue), resume_deliver (g := { g with due := _ }) (.inr rfl)]
          rfl
        exact hsame.trans (ih hrest hopen hconfiguration (by rw [hdue] at hresult; exact hresult)
          hplain')
      · cases hstep
    | delivered k sample =>
      obtain ⟨outcome, hdue, rfl⟩ := step_delivered hstep
      have houtcome : g.due.result = outcome := by
        rcases hdue with hdue | hdue <;> rw [hdue] <;> rfl
      show g.resume config configuration (heard l) = _
      rw [resume_deliver hdue, ih hrest hopen hconfiguration ?_ hplain']
      · rfl
      · intro result hr
        refine hresult result (houtcome.trans ?_)
        cases outcome with
        | none => cases hr
        | some _ => exact hr
    | sessionEnded k outcome =>
      rcases step_sessionEnded hstep with ⟨hdue, rfl, -, hother⟩ | ⟨hdue, rfl⟩
      · obtain ⟨hheard, hhanded, hendings, -, hdue'⟩ := run_ended hrest rfl hdue hplain'
        rw [endings_ended, hother hopen, hendings, hdue']
        show g.resume config configuration (heard l) = (handed l ++ _, _)
        rw [hheard, hhanded, resume_nil, hdue]
        rfl
      · obtain ⟨hheard, hhanded, hendings, -, hdue'⟩ := run_ended hrest rfl rfl hplain'
        have hrecord : outcome.result.ofRecord = true := hresult _ (by rw [hdue]; rfl)
        rw [endings_ended, hrecord, hendings, hdue']
        show g.resume config configuration (heard l) = (handed l ++ _, _)
        rw [hheard, hhanded, resume_nil, hdue]
        rfl
    | published | runEnded =>
      simp only [step] at hstep
      split at hstep <;> cases hstep
      rename_i hdue
      obtain ⟨hheard, hhanded, hendings, -, hdue'⟩ := run_ended hrest rfl hdue hplain'
      show g.resume config configuration (heard l) = (handed l ++ _, (endings l ++ _).head?)
      rw [hheard, hhanded, hendings, hdue', resume_nil, hdue]
      rfl
    | _ => cases hstep; exact ih hrest hopen hconfiguration hresult hplain'

/-- A record that ends the session leaves nothing due. -/
theorem run_endings (hrun : g.run config l = some g') (hplain : ∀ e ∈ l, e.plain = true)
    (hends : endings l ≠ []) : g'.phase = .closed ∧ g'.due = .nothing := by
  induction l generalizing g with
  | nil => exact absurd rfl hends
  | cons e l ih =>
    have hstep : ∃ g₁, g.step config e = some g₁ ∧ g₁.run config l = some g' := by
      simpa [run, Option.bind_eq_some_iff] using hrun
    obtain ⟨g₁, hstep, hrest⟩ := hstep
    have hplain' : ∀ e ∈ l, e.plain = true := fun e he => hplain e (List.mem_cons_of_mem _ he)
    cases e with
    | sessionEnded k outcome =>
      have hended : g₁.phase = .closed ∧ g₁.due = .nothing := by
        rcases step_sessionEnded hstep with ⟨hdue, rfl, -, -⟩ | ⟨-, rfl⟩
        · exact ⟨rfl, hdue⟩
        · exact ⟨rfl, rfl⟩
      exact (run_ended hrest hended.1 hended.2 hplain').2.2.2
    | _ => exact ih hrest hplain' hends

end

end Serial

/-! ## Late copies -/

/-- A record as it arrives: its position in the stream, and whether it is a further copy of a record
that arrived before. -/
structure Sighting where
  position : Int
  record : RawRecord
  receivedAt : TimePoint
  late : Bool

def Sighting.received (a : Sighting) : Received := (a.record, a.receivedAt)

/-- The records without the late copies. -/
def originals (as : List Sighting) : List Sighting := as.filter (!·.late)

/-- The second number is ahead of the first one. -/
def Ahead (v current : UInt32) : Prop := current ≠ v ∧ current - v < halfRange

/-- Records of a session as they arrive, late copies among them. The positions are those of the RDT
stream, with `front` the largest one so far; a late copy is one of the records `seen` so far, in the
window of the tracker. The FT number of a record is ahead of `numbers`: that of the record before
it, and those of the copies in between. -/
def Sighted (front : Option Int) (seen : List (Int × RawRecord)) (numbers : List UInt32) :
    List Sighting → Prop
  | [] => True
  | a :: as =>
    a.record.rdtSequence = word a.position ∧ (∀ f ∈ front, Near f a.position) ∧
      if a.late then
        (a.position, a.record) ∈ seen ∧ Sighted front seen (a.record.ftSequence :: numbers) as
      else
        (∀ v ∈ numbers, Ahead v a.record.ftSequence) ∧
          Sighted (some (front.elim a.position (max a.position)))
            ((a.position, a.record) :: seen) [a.record.ftSequence] as

/-- The number at which the tracker stands. -/
def ftBaseline (t : FtSequenceTracker) : List UInt32 :=
  if t.hasLast then [t.previous] else []

theorem ftObserve_previous (t : FtSequenceTracker) (v : UInt32) :
    (t.observe v).1.previous = v ∨ t.hasLast = true ∧ (t.observe v).1.previous = t.previous := by
  cases hlast : t.hasLast with
  | false => exact .inl (by simp [FtSequenceTracker.observe, hlast])
  | true =>
    simp only [FtSequenceTracker.observe, hlast]
    (repeat' split) <;> simp_all

/-- Without a rate limit the verdict on a record that the FT tracker accepts is that of the RDT
tracker and the status. -/
theorem recordVerdict_accepted (hrate : config.sampleRateLimitHz = 0)
    {lastDeliveryAt receivedAt : TimePoint} {rdt : SequenceKind} {ft : FtSequenceKind}
    {severity : StatusSeverity} (hft : ft = .first ∨ ft = .forward) :
    recordVerdict config lastDeliveryAt receivedAt rdt ft severity =
      recordVerdict config 0 0 rdt .forward severity := by
  have hlimit : ∀ last now, rateLimitHolds config last now = false := by
    simp [rateLimitHolds, hrate]
  rcases hft with rfl | rfl <;> simp [recordVerdict, hlimit, ftDiscontinuity, statusOutcome]

/-- Under `Reconnect` a late copy is dropped, whatever its FT number looks like. -/
theorem recordVerdict_late (hpolicy : config.recoveryPolicy = .reconnect)
    {lastDeliveryAt receivedAt : TimePoint} {rdt : SequenceKind} {ft : FtSequenceKind}
    {severity : StatusSeverity} (hrdt : rdt = .duplicate ∨ rdt = .outOfOrder)
    (hseverity : severity ≠ .error) :
    recordVerdict config lastDeliveryAt receivedAt rdt ft severity =
      { deliver := false, outcome := none, rateLimited := false } := by
  rcases hrdt with rfl | rfl <;> cases ft <;>
    simp [recordVerdict, statusOutcome, ftDiscontinuity, hpolicy, hseverity]

theorem recordVerdict_seriousStatus {lastDeliveryAt receivedAt : TimePoint} {rdt : SequenceKind}
    {ft : FtSequenceKind} {severity : StatusSeverity} (hseverity : severity = .error) :
    (recordVerdict config lastDeliveryAt receivedAt rdt ft severity).outcome ≠ none := by
  subst hseverity
  simp only [recordVerdict, statusOutcome]
  (repeat' split) <;> simp_all

/-- The program with the late copies and the program without them. -/
structure Twins (front : Option Int) (seen : List (Int × RawRecord)) (numbers : List UInt32)
    (g g' : Serial D) : Prop where
  rdt : g.rdt = g'.rdt
  fresh : front = none → g.rdt.hasLast = false
  stands : ∀ f ∈ front, g.rdt.At f
  seen : ∀ x ∈ seen, ∃ f, front = some f ∧ x.1 ≤ f ∧ classifyStatus x.2.status ≠ .error
  ft : g.ft.hasLast = true → g.ft.previous ∈ numbers
  ft' : g'.ft.hasLast = true → g'.ft.previous ∈ numbers

section
variable {front : Option Int} {seen : List (Int × RawRecord)} {numbers : List UInt32}
  {a : Sighting} {as : List Sighting}

theorem Serial.judge_accepted (receivedAt : TimePoint) (hrate : config.sampleRateLimitHz = 0)
    (hft : g.ft.hasLast = true → g.ft.previous ∈ numbers)
    (hahead : ∀ v ∈ numbers, Ahead v record.ftSequence) :
    g.judge config record receivedAt = recordVerdict config 0 0
      (g.rdt.observe record.rdtSequence).2.kind .forward (classifyStatus record.status) :=
  recordVerdict_accepted hrate (ftObserve_ahead fun h => hahead _ (hft h)).1

/-- The tracker after a record whose position is in its window. -/
theorem rdtObserve_front {t : RdtSequenceTracker} {position : Int}
    (hfresh : front = none → t.hasLast = false) (hat : ∀ f ∈ front, t.At f)
    (hnear : ∀ f ∈ front, Near f position) :
    (t.observe (word position)).1.At (front.elim position (max position)) := by
  cases front with
  | none => exact (observe_first (hfresh rfl) position).1
  | some f =>
    have hmax := ((hat f rfl).observe (hnear f rfl)).1
    rwa [max_comm] at hmax

/-- A position that is not ahead of the largest one leaves the tracker where it is. -/
theorem rdtObserve_behind {t : RdtSequenceTracker} {f position : Int} (hat : t.At f)
    (hnear : Near f position) (hle : position ≤ f) :
    (t.observe (word position)).1 = t ∧
      ((t.observe (word position)).2.kind = .duplicate ∨
        (t.observe (word position)).2.kind = .outOfOrder) := by
  obtain ⟨hat', hkind⟩ := hat.observe hnear
  rw [max_eq_left hle] at hat'
  constructor
  · cases ht' : (t.observe (word position)).1
    cases t
    simp_all [RdtSequenceTracker.At]
  · rw [hkind]
    unfold classify
    split
    · exact .inl rfl
    · rw [if_pos (by omega)]
      exact .inr rfl

variable [Double D]

/-- An original record has the same verdict in both, and after it they are still twins. -/
theorem Twins.original (h : Twins front seen numbers g g')
    (configuration : SensorConfiguration D) (hrate : config.sampleRateLimitHz = 0)
    (hword : a.record.rdtSequence = word a.position) (hnear : ∀ f ∈ front, Near f a.position)
    (hahead : ∀ v ∈ numbers, Ahead v a.record.ftSequence) :
    g.judge config a.record a.receivedAt = g'.judge config a.record a.receivedAt ∧
      ((g.judge config a.record a.receivedAt).outcome = none →
        Twins (some (front.elim a.position (max a.position))) ((a.position, a.record) :: seen)
          [a.record.ftSequence] (g.hear config configuration a.record a.receivedAt)
          (g'.hear config configuration a.record a.receivedAt)) := by
  have hjudge := Serial.judge_accepted a.receivedAt hrate h.ft hahead
  have hjudge' := Serial.judge_accepted a.receivedAt hrate h.ft' hahead
  refine ⟨by rw [hjudge, hjudge', h.rdt], fun houtcome => ?_⟩
  have hat := rdtObserve_front h.fresh h.stands hnear
  have hft := (ftObserve_ahead fun hlast => hahead _ (h.ft hlast)).2.2
  have hft' := (ftObserve_ahead fun hlast => hahead _ (h.ft' hlast)).2.2
  constructor
  · show (g.rdt.observe _).1 = (g'.rdt.observe _).1
    rw [h.rdt]
  · exact fun h => by cases h
  · rintro f ⟨⟩
    show (g.rdt.observe a.record.rdtSequence).1.At _
    rw [hword]
    exact hat
  · intro x hx
    rcases List.mem_cons.mp hx with rfl | hx
    · refine ⟨_, rfl, ?_, fun herror => recordVerdict_seriousStatus herror houtcome⟩
      cases front with
      | none => exact le_rfl
      | some f => exact le_max_left ..
    · obtain ⟨f, rfl, hle, hstatus⟩ := h.seen x hx
      exact ⟨_, rfl, le_trans hle (le_max_right ..), hstatus⟩
  · exact fun _ => List.mem_singleton.mpr hft
  · exact fun _ => List.mem_singleton.mpr hft'

/-- A late copy is dropped without an outcome, and after it they are still twins. -/
theorem Twins.copy (h : Twins front seen numbers g g')
    (configuration : SensorConfiguration D) (hpolicy : config.recoveryPolicy = .reconnect)
    (hword : a.record.rdtSequence = word a.position) (hnear : ∀ f ∈ front, Near f a.position)
    (hseen : (a.position, a.record) ∈ seen) :
    dispose configuration a.record a.receivedAt (g.judge config a.record a.receivedAt) =
        .finish none ∧
      Twins front seen (a.record.ftSequence :: numbers)
        (g.hear config configuration a.record a.receivedAt) g' := by
  obtain ⟨f, rfl, hle, hstatus⟩ := h.seen _ hseen
  obtain ⟨hsame, hkind⟩ := rdtObserve_behind (h.stands f rfl) (hnear f rfl) hle
  rw [← hword] at hsame hkind
  constructor
  · rw [Serial.judge, recordVerdict_late hpolicy hkind hstatus]
    rfl
  · constructor
    · exact hsame.trans h.rdt
    · exact fun h => by cases h
    · intro f hf
      show (g.rdt.observe a.record.rdtSequence).1.At f
      rw [hsame]
      exact h.stands f hf
    · exact h.seen
    · intro _
      rcases ftObserve_previous g.ft a.record.ftSequence with hnew | ⟨hlast, hold⟩
      · exact List.mem_cons.mpr (.inl hnew)
      · refine List.mem_cons.mpr (.inr ?_)
        rw [show (g.hear config configuration a.record a.receivedAt).ft.previous = g.ft.previous
          from hold]
        exact h.ft hlast
    · exact fun hlast => List.mem_cons_of_mem _ (h.ft' hlast)

omit [Double D] in
theorem Twins.deliver (h : Twins front seen numbers g g') (sample : Sample D) :
    Twins front seen numbers (g.deliver sample none) (g'.deliver sample none) :=
  ⟨h.rdt, h.fresh, h.stands, h.seen, h.ft, h.ft'⟩

/-- The records with the late copies give what the records without them give. -/
theorem Twins.serve (h : Twins front seen numbers g g')
    (configuration : SensorConfiguration D) (hpolicy : config.recoveryPolicy = .reconnect)
    (hrate : config.sampleRateLimitHz = 0) (hlate : Sighted front seen numbers as) :
    g.serve config configuration (as.map (·.received)) =
      g'.serve config configuration ((originals as).map (·.received)) := by
  induction as generalizing front seen numbers g g' with
  | nil => rfl
  | cons a as ih =>
    obtain ⟨hword, hnear, hrest⟩ := hlate
    cases hcopy : a.late with
    | true =>
      rw [hcopy, if_pos rfl] at hrest
      obtain ⟨hdispose, htwins⟩ := h.copy configuration hpolicy hword hnear hrest.1
      have horiginals : originals (a :: as) = originals as := by simp [originals, hcopy]
      rw [horiginals, ← ih htwins hrest.2]
      simp only [List.map_cons, Sighting.received, Serial.serve, hdispose]
    | false =>
      rw [hcopy, if_neg (by simp)] at hrest
      obtain ⟨hjudge, htwins⟩ := h.original configuration hrate hword hnear hrest.1
      have horiginals : originals (a :: as) = a :: originals as := by simp [originals, hcopy]
      rw [horiginals]
      simp only [List.map_cons, Sighting.received, Serial.serve, ← hjudge]
      cases hdispose : dispose configuration a.record a.receivedAt
          (g.judge config a.record a.receivedAt) with
      | finish outcome =>
        cases outcome with
        | some result => rfl
        | none =>
          refine ih (htwins ?_) hrest.2
          rcases dispose_finish hdispose with ⟨-, hverdict⟩ | ⟨-, -, hsensor⟩
          · exact hverdict.symm
          · cases hsensor
      | deliver sample outcome =>
        cases outcome with
        | some result => rfl
        | none =>
          have hserved := ih ((htwins (dispose_deliver hdispose).2.2.2.symm).deliver sample) hrest.2
          simp only [Sighting.received] at hserved
          simp only [hserved]

/-! ### Under `FailStop` -/

/-- The FT tracker stands at a number and waits for no confirmation of a restart. -/
structure StandsAt (t : FtSequenceTracker) (v : UInt32) : Prop where
  hasLast : t.hasLast = true
  previous : t.previous = v
  settled : t.hasRestartCandidate = false

omit [Double D] in
theorem StandsAt.of_ahead {t : FtSequenceTracker} {v : UInt32} (hahead : FtAhead t v)
    (hsettled : t.hasLast = false → t.hasRestartCandidate = false) :
    StandsAt (t.observe v).1 v := by
  obtain ⟨-, hlast, hprevious⟩ := ftObserve_ahead hahead
  refine ⟨hlast, hprevious, ?_⟩
  unfold FtSequenceTracker.observe
  cases h : t.hasLast with
  | false => exact hsettled h
  | true =>
    obtain ⟨hne, hlt⟩ := hahead h
    simp [hne, hlt]

omit [Double D] in
/-- A number that is not ahead stalls the tracker or is behind it. -/
theorem StandsAt.behind {t : FtSequenceTracker} {v current : UInt32} (h : StandsAt t v)
    (hbehind : ¬ Ahead v current) :
    (t.observe current).2 = .stall ∨ (t.observe current).2 = .backward := by
  obtain ⟨hlast, rfl, hsettled⟩ := h
  simp only [FtSequenceTracker.observe, hlast, FtSequenceTracker.confirmsRestart, hsettled]
  by_cases heq : current = t.previous
  · simp [heq]
  · have hfar : ¬ current - t.previous < halfRange := fun hlt => hbehind ⟨heq, hlt⟩
    simp [heq, hfar]

omit [Double D] in
theorem recordVerdict_failStop (hpolicy : config.recoveryPolicy = .failStop)
    (lastDeliveryAt receivedAt : TimePoint) (rdt : SequenceKind) {ft : FtSequenceKind}
    {severity : StatusSeverity} (hft : ft = .stall ∨ ft = .backward)
    (hseverity : severity ≠ .error) :
    ∃ result, (result = .ftStall ∨ result = .ftBackward) ∧
      recordVerdict config lastDeliveryAt receivedAt rdt ft severity =
        { deliver := false, outcome := some result, rateLimited := false } := by
  rcases hft with rfl | rfl
  · exact ⟨.ftStall, .inl rfl,
      by simp [recordVerdict, statusOutcome, ftDiscontinuity, hpolicy, hseverity]⟩
  · exact ⟨.ftBackward, .inr rfl,
      by simp [recordVerdict, statusOutcome, ftDiscontinuity, hpolicy, hseverity]⟩

/-- A record that does not end the session. -/
theorem Twins.goes (h : Twins front seen numbers g g) (hrate : config.sampleRateLimitHz = 0)
    (hword : a.record.rdtSequence = word a.position) (hnear : ∀ f ∈ front, Near f a.position)
    (hahead : ∀ v ∈ numbers, Ahead v a.record.ftSequence)
    (hgoes : (g.serve config configuration (a.received :: records)).2 = none) :
    ∃ g₁ samples, Twins (some (front.elim a.position (max a.position)))
        ((a.position, a.record) :: seen) [a.record.ftSequence] g₁ g₁ ∧
      g₁.ft = (g.ft.observe a.record.ftSequence).1 ∧
      ∀ rest, g.serve config configuration (a.received :: rest) =
        (samples ++ (g₁.serve config configuration rest).1,
          (g₁.serve config configuration rest).2) := by
  obtain ⟨-, htwins⟩ := h.original configuration hrate hword hnear hahead
  simp only [Sighting.received, Serial.serve] at hgoes ⊢
  cases hdispose : dispose configuration a.record a.receivedAt
      (g.judge config a.record a.receivedAt) with
  | finish outcome =>
    rw [hdispose] at hgoes
    cases outcome with
    | some result => cases hgoes
    | none =>
      have houtcome : (g.judge config a.record a.receivedAt).outcome = none := by
        rcases dispose_finish hdispose with ⟨-, hverdict⟩ | ⟨-, -, hsensor⟩
        · exact hverdict.symm
        · cases hsensor
      exact ⟨_, [], htwins houtcome, rfl, fun rest => rfl⟩
  | deliver sample outcome =>
    rw [hdispose] at hgoes
    cases outcome with
    | some result => cases hgoes
    | none =>
      have houtcome := (dispose_deliver hdispose).2.2.2.symm
      exact ⟨_, [sample], (htwins houtcome).deliver sample, rfl, fun rest => rfl⟩

/-- The first late copy ends the session, if no record before it does. -/
theorem Twins.failStop {b : Sighting} (h : Twins front seen numbers g g)
    (configuration : SensorConfiguration D)
    (hpolicy : config.recoveryPolicy = .failStop) (hrate : config.sampleRateLimitHz = 0)
    (hsettled : g.ft.hasLast = false → g.ft.hasRestartCandidate = false)
    (hlate : Sighted front seen numbers (as ++ [b, a])) (hbefore : ∀ x ∈ as, x.late = false)
    (hb : b.late = false) (ha : a.late = true)
    (hbehind : ¬ Ahead b.record.ftSequence a.record.ftSequence)
    (hgoes : (g.serve config configuration ((as ++ [b]).map (·.received))).2 = none) :
    ∃ result, (result = .ftStall ∨ result = .ftBackward) ∧
      g.serve config configuration ((as ++ [b, a]).map (·.received)) =
        ((g.serve config configuration ((as ++ [b]).map (·.received))).1, some result) := by
  induction as generalizing front seen numbers g with
  | nil =>
    obtain ⟨hword, hnear, hrest⟩ := hlate
    rw [hb, if_neg (by simp)] at hrest
    obtain ⟨hahead, hrest⟩ := hrest
    obtain ⟨g₁, samples, htwins, hft, hserve⟩ := h.goes hrate hword hnear hahead hgoes
    obtain ⟨hword', hnear', hrest⟩ := hrest
    rw [ha, if_pos rfl] at hrest
    obtain ⟨f, hf, hle, hstatus⟩ := htwins.seen _ hrest.1
    obtain ⟨hsame, hkind⟩ := rdtObserve_behind (htwins.stands f hf) (hnear' f hf) hle
    have hstands : StandsAt g₁.ft b.record.ftSequence := by
      rw [hft]
      exact .of_ahead (fun hlast => hahead _ (h.ft hlast)) hsettled
    obtain ⟨result, hresult, hverdict⟩ := recordVerdict_failStop hpolicy
      g₁.lastDeliveryAt a.receivedAt (g₁.rdt.observe a.record.rdtSequence).2.kind
      (hstands.behind hbehind) hstatus
    refine ⟨result, hresult, ?_⟩
    have hlast : g₁.serve config configuration [a.received] = ([], some result) := by
      simp only [Sighting.received, Serial.serve, Serial.judge, hverdict]
      rfl
    show g.serve config configuration (b.received :: [a.received]) =
      ((g.serve config configuration (b.received :: [])).1, some result)
    rw [hserve, hserve, hlast]
    rfl
  | cons x as ih =>
    have hx := hbefore x List.mem_cons_self
    obtain ⟨hword, hnear, hrest⟩ := hlate
    rw [hx, if_neg (by simp)] at hrest
    obtain ⟨hahead, hrest⟩ := hrest
    obtain ⟨g₁, samples, htwins, hft, hserve⟩ := h.goes hrate hword hnear hahead hgoes
    have hstands : StandsAt g₁.ft x.record.ftSequence := by
      rw [hft]
      exact .of_ahead (fun hlast => hahead _ (h.ft hlast)) hsettled
    have hgoes' : (g₁.serve config configuration ((as ++ [b]).map (·.received))).2 = none := by
      have hboth := congrArg Prod.snd (hserve ((as ++ [b]).map (·.received)))
      exact hboth.symm.trans hgoes
    obtain ⟨result, hresult, hrest⟩ := ih htwins (fun _ => hstands.settled) hrest
      (fun y hy => hbefore y (List.mem_cons_of_mem _ hy)) hgoes'
    refine ⟨result, hresult, ?_⟩
    show g.serve config configuration (x.received :: (as ++ [b, a]).map (·.received)) =
      ((g.serve config configuration (x.received :: (as ++ [b]).map (·.received))).1, some result)
    rw [hserve, hserve, hrest]

end

/-! ## Runs -/

section
variable [DecidableEq D] [Double D] {s : Nat}

/-- A session opens with a fresh RDT tracker and without a restart candidate. -/
structure Serial.Opened (g : Serial D) : Prop where
  due : g.due = .nothing
  rdt : g.rdt.hasLast = false
  ft : g.ft.hasRestartCandidate = false

theorem Serial.step_opened {e : Event D} (hstep : g.step config e = some g')
    (h : g.phase = .opening → g.Opened) (hphase : g'.phase = .opening) : g'.Opened := by
  cases e with
  | returned t call =>
    cases call with
    | bias => cases hstep; exact ⟨(h hphase).due, rfl, (h hphase).ft⟩
    | _ => cases hstep; exact h hphase
  | sessionBegan =>
    simp only [step] at hstep
    split at hstep <;> cases hstep
    exact ⟨‹_›, rfl, rfl⟩
  | created =>
    simp only [step] at hstep
    split at hstep <;> cases hstep
    have hboth := ‹g.phase = .closed›.symm.trans hphase
    cases hboth
  | discovered | discoveryFailed =>
    simp only [step] at hstep
    split at hstep <;> cases hstep
    have hopened := h ‹_›
    exact ⟨‹_›, hopened.rdt, hopened.ft⟩
  | connected | sessionEnded | published | runEnded =>
    simp only [step] at hstep
    (repeat' split at hstep) <;> cases hstep <;> cases hphase
  | processed =>
    simp only [step] at hstep
    (repeat' split at hstep) <;> cases hstep
    have hboth := ‹g.phase = .open›.symm.trans hphase
    cases hboth
  | invoked | copyFailed | callbackError | delivered =>
    simp only [step] at hstep
    (repeat' split at hstep) <;> cases hstep <;>
      exact absurd ((h hphase).due.symm.trans ‹_›) (by simp)
  | _ => cases hstep; exact h hphase

theorem Serial.opened_of_run (hrun : Serial.run config {} l = some g)
    (hphase : g.phase = .opening) :
    g.Opened := by
  induction l using List.reverseRecOn generalizing g with
  | nil => cases hrun; cases hphase
  | append_singleton l e ih =>
    obtain ⟨g₁, hrun, hstep⟩ := Serial.run_append.mp hrun
    rw [Serial.run_single] at hstep
    exact step_opened hstep (ih hrun) hphase

/-- The session when its transport has connected. -/
theorem Serial.connected_of_run
    (hrun : Serial.run config {} (l ++ [.connected n s]) = some g) :
    g.phase = .open ∧ g.Opened ∧ ∃ configuration, g.configuration = some configuration := by
  obtain ⟨g₁, hopening, hstep⟩ := Serial.run_append.mp hrun
  rw [Serial.run_single] at hstep
  simp only [step] at hstep
  split at hstep <;> cases hstep
  rename_i hdue hphase hconfiguration
  obtain ⟨-, hrdt, hft⟩ := opened_of_run hopening hphase
  exact ⟨rfl, ⟨hdue, hrdt, hft⟩, _, hconfiguration⟩

omit [DecidableEq D] [Double D] in
theorem Serial.Opened.twins (h : g.Opened) : Twins none [] (ftBaseline g.ft) g g where
  rdt := rfl
  fresh _ := h.rdt
  stands _ hf := by cases hf
  seen _ hx := by cases hx
  ft hlast := by simp [ftBaseline, hlast]
  ft' hlast := by simp [ftBaseline, hlast]

/-- The history of a session from its connection on, in terms of its records. -/
theorem Reachable.session (h : Reachable config w (l₁ ++ .connected n s :: l₂))
    (hplain : ∀ e ∈ l₂, e.plain = true) :
    ∃ g configuration, Serial.run config {} (l₁ ++ [.connected n s]) = some g ∧ g.Opened ∧
      g.configuration = some configuration ∧ ∃ g', Serialised w g' ∧
      g.serve config configuration (heard l₂) =
        (handed l₂ ++ g'.due.pending, (endings l₂ ++ g'.due.result.toList).head?) ∧
      (endings l₂ ≠ [] → g'.phase = .closed ∧ g'.due = .nothing) := by
  obtain ⟨g', hrun, hserial⟩ := h.serialised
  rw [List.append_cons] at hrun
  obtain ⟨g, hrun, hrest⟩ := Serial.run_append.mp hrun
  obtain ⟨hopen, hopened, configuration, hconfiguration⟩ := Serial.connected_of_run hrun
  refine ⟨g, configuration, hrun, hopened, hconfiguration, g', hserial, ?_,
    Serial.run_endings hrest hplain⟩
  rw [← Serial.resume_nothing hopened.due]
  refine Serial.run_resume hrest hopen hconfiguration ?_ hplain
  rw [hopened.due]
  exact fun _ h => by cases h

omit [Double D] in
/-- At the top of the receive loop nothing is due and the session is open. -/
theorem Serialised.loop (h : Serialised w g) {k : Nat} (hk : (w.workers k).pc = .session .loop) :
    g.phase = .open ∧ g.due = .nothing := by
  have hat := h.runs k (by rw [World.executing, hk]; rfl)
  rw [hk] at hat
  exact ⟨hat.1, hat.2.2.2⟩

omit [Double D] in
/-- The result that is due is the one that a worker has in hand. -/
theorem Serialised.outcome {result : SessionResult} (h : Serialised w g)
    (hdue : g.due.result = some result) :
    ∃ k, (w.workers k).pc.recordOutcome = some result := by
  have hne : g.due ≠ .nothing := fun hnothing => by rw [hnothing] at hdue; cases hdue
  obtain ⟨k, hk⟩ : ∃ k, w.executing k := by
    by_contra hnone
    exact hne (h.rests (not_exists.mp hnone)).due
  have hat := h.runs k hk
  refine ⟨k, ?_⟩
  cases hpc : (w.workers k).pc with
  | session p =>
    rw [hpc] at hat
    cases p with
    | record p =>
      have hat : g.AtRecord w.impl p := hat.2
      cases p with
      | observe | account => exact absurd hat.2.2 hne
      | copyCallback | inCallback => rwa [hat.2.2] at hdue
      | callbackFailed =>
        rcases hat.2.2 with hcopy | ⟨sample, hcallback⟩
        · rw [hcopy] at hdue
          cases hdue
        · rwa [hcallback] at hdue
      | commit => rcases hat.2.2 with hsame | hsame <;> rwa [hsame] at hdue
      | commitData => rcases hat.2.2.2 with hsame | hsame <;> rwa [hsame] at hdue
      | notifyFirst outcome | notifyLifecycle outcome =>
        rw [hat.2.2] at hdue
        cases outcome with
        | none => cases hdue
        | some _ => exact hdue
    | apply => exact absurd hat.2.2.2.2 hne
    | _ => exact absurd hat.2.2.2 hne
  | unborn | exited => rw [hpc] at hat; exact absurd hat.due hne
  | top | decide | enterBackoff | backoffWait | backoffBlock | backoffAsleep =>
    rw [hpc] at hat
    exact absurd hat.2.2.2 hne
  | close context | closeTransport context =>
    rw [hpc] at hat
    cases context with
    | session => exact absurd hat.2.2.2 hne
    | finish => exact absurd hat.2.2 hne
  | _ => rw [hpc] at hat; exact absurd hat.2.2 hne

/-- Under `Reconnect`, without a rate limit, in a session without `bias` and with callbacks that
return: late copies change nothing. The samples that are delivered, and the result with which a
record ends the session if one does, are those that the sequential program gives for the records
without the copies. -/
theorem late_copies_ignored (h : Reachable config w (l₁ ++ .connected n s :: l₂))
    (hpolicy : config.recoveryPolicy = .reconnect) (hrate : config.sampleRateLimitHz = 0)
    (hplain : ∀ e ∈ l₂, e.plain = true) :
    ∃ g configuration, Serial.run config {} (l₁ ++ [.connected n s]) = some g ∧
      g.configuration = some configuration ∧
      ∀ as : List Sighting, as.map (·.received) = heard l₂ →
        Sighted none [] (ftBaseline g.ft) as →
        let served := g.serve config configuration ((originals as).map (·.received))
        handed l₂ <+: served.1 ∧
        (∀ k, (w.workers k).pc = .session .loop → handed l₂ = served.1 ∧ served.2 = none) ∧
        ∀ result ∈ (endings l₂).head?, handed l₂ = served.1 ∧ served.2 = some result := by
  obtain ⟨g, configuration, hrun, hopened, hconfiguration, g', hserial, hserved, hends⟩ :=
    h.session hplain
  refine ⟨g, configuration, hrun, hconfiguration, fun as has hlate => ?_⟩
  have htwins := hopened.twins.serve configuration hpolicy hrate hlate
  rw [has, hserved] at htwins
  dsimp only
  rw [← htwins]
  refine ⟨List.prefix_append .., fun k hk => ?_, fun result hresult => ?_⟩
  · obtain ⟨hopen, hdue⟩ := hserial.loop hk
    have hnone : endings l₂ = [] := by
      by_contra hne
      have hboth := hopen.symm.trans (hends hne).1
      cases hboth
    simp [hdue, hnone, Due.pending, Due.result]
  · have hne : endings l₂ ≠ [] := by
      intro hnil
      rw [hnil] at hresult
      cases hresult
    have hhead : (endings l₂).head? = some result := hresult
    simp [(hends hne).2, Due.pending, Due.result, hhead]

/-- Under `FailStop` the first late copy, of a record whose FT number is not ahead of the last one,
is a stall or a backward step, if no record before it has ended the session: with that result the
session has ended, or the worker has it in hand. -/
theorem late_copy_ends_session (h : Reachable config w (l₁ ++ .connected n s :: l₂))
    (hpolicy : config.recoveryPolicy = .failStop) (hrate : config.sampleRateLimitHz = 0)
    (hplain : ∀ e ∈ l₂, e.plain = true) :
    ∃ g configuration, Serial.run config {} (l₁ ++ [.connected n s]) = some g ∧
      g.configuration = some configuration ∧
      ∀ (as : List Sighting) (b a : Sighting), (as ++ [b, a]).map (·.received) = heard l₂ →
        Sighted none [] (ftBaseline g.ft) (as ++ [b, a]) → (∀ x ∈ as, x.late = false) →
        b.late = false → a.late = true → ¬ Ahead b.record.ftSequence a.record.ftSequence →
        let served := g.serve config configuration ((as ++ [b]).map (·.received))
        served.2 = none →
        ∃ result, (result = .ftStall ∨ result = .ftBackward) ∧ handed l₂ <+: served.1 ∧
          (∀ k, (w.workers k).pc ≠ .session .loop) ∧
          ((endings l₂).head? = some result ∧ handed l₂ = served.1 ∨
            endings l₂ = [] ∧ ∃ k, (w.workers k).pc.recordOutcome = some result) := by
  obtain ⟨g, configuration, hrun, hopened, hconfiguration, g', hserial, hserved, hends⟩ :=
    h.session hplain
  refine ⟨g, configuration, hrun, hconfiguration, ?_⟩
  intro as b a has hlate hbefore hb ha hbehind served hgoes
  obtain ⟨result, hresult, hall⟩ := hopened.twins.failStop configuration hpolicy
    hrate (fun _ => hopened.ft) hlate hbefore hb ha hbehind hgoes
  rw [has, hserved] at hall
  obtain ⟨hhanded, hending⟩ := Prod.mk.inj hall
  refine ⟨result, hresult, ⟨_, hhanded⟩, fun k hk => ?_, ?_⟩
  · obtain ⟨hopen, hdue⟩ := hserial.loop hk
    have hnone : endings l₂ = [] := by
      by_contra hne
      have hboth := hopen.symm.trans (hends hne).1
      cases hboth
    simp [hdue, hnone, Due.result] at hending
  · by_cases hnone : endings l₂ = []
    · have hdue : g'.due.result = some result := by simpa [hnone] using hending
      exact .inr ⟨hnone, hserial.outcome hdue⟩
    · have hdue := (hends hnone).2
      refine .inl ⟨?_, ?_⟩
      · simpa [hdue, Due.result] using hending
      · rw [hdue] at hhanded
        exact (List.append_nil _).symm.trans hhanded

end

/-! ### A run -/

/-- The record at both positions of a counter, received at once. -/
def sighting (number : Nat) (late : Bool) : Sighting where
  position := number
  record := {
    rdtSequence := number.toUInt32, ftSequence := number.toUInt32, status := 0
    fx := 0, fy := 0, fz := 0, tx := 0, ty := 0, tz := 0 }
  receivedAt := 1
  late

/-- Two records, late copies of both, and a third record. -/
def lateSightings : List Sighting :=
  [sighting 1 false, sighting 2 false, sighting 1 true, sighting 2 true, sighting 3 false]

def lateClient : World Rat × List (Event Rat) :=
  (machine (demoConfig .reconnect)).perform (World.initial 1)
    (startActions (.client 0) ++ openActions 0 ++ receiveActions 0 (plainRecord 1 1) ++
      receiveActions 0 (plainRecord 2 2) ++ (receiveActions 0 (plainRecord 1 1)).take 11 ++
      (receiveActions 0 (plainRecord 2 2)).take 11 ++ receiveActions 0 (plainRecord 3 3))

theorem late_copies_ignored_lateClient :
    lateClient.1.impl.health.ftStallCount = 1 ∧ lateClient.1.impl.health.ftBackwardCount = 1 ∧
      ∃ g configuration, handed lateClient.2 =
        (Serial.serve (demoConfig .reconnect) configuration g
          ((originals lateSightings).map (·.received))).1 := by
  have hsplit : lateClient.2 = lateClient.2.take 5 ++ .connected 0 0 :: lateClient.2.drop 6 := by
    decide +kernel
  have h : Reachable (demoConfig .reconnect) lateClient.1
      (lateClient.2.take 5 ++ .connected 0 0 :: lateClient.2.drop 6) :=
    hsplit ▸ ⟨1, Machine.run_perform (by decide +kernel)⟩
  obtain ⟨g, configuration, hrun, -, hserves⟩ := late_copies_ignored h rfl rfl (by decide +kernel)
  have hft : (Serial.run (demoConfig .reconnect) {}
      (lateClient.2.take 5 ++ [.connected 0 0])).map (·.ft) = some {} := by decide +kernel
  rw [hrun] at hft
  have hft : g.ft = {} := Option.some.inj hft
  have hlate : Sighted none [] (ftBaseline g.ft) lateSightings := by
    rw [hft]
    simp [Sighted, lateSightings, sighting, ftBaseline, Near, Ahead]
    decide
  have hloops : (lateClient.1.workers 0).pc.loops = true := by decide +kernel
  refine ⟨by decide +kernel, by decide +kernel, g, configuration, ?_⟩
  have hhanded : handed lateClient.2 = handed (lateClient.2.drop 6) := by decide +kernel
  rw [hhanded]
  exact ((hserves lateSightings (by decide +kernel) hlate).2.1 0 (RunPc.loops_iff.mp hloops)).1

/-- `lateClient` up to the first late copy, under `FailStop`. -/
def duplicatedClient : World Rat × List (Event Rat) :=
  (machine (demoConfig .failStop)).perform (World.initial 1)
    (startActions (.client 0) ++ openActions 0 ++ receiveActions 0 (plainRecord 1 1) ++
      receiveActions 0 (plainRecord 2 2) ++ (receiveActions 0 (plainRecord 1 1)).take 11)

theorem late_copy_ends_session_duplicatedClient :
    endings duplicatedClient.2 = [.ftBackward] ∧
      ∃ result, (result = .ftStall ∨ result = .ftBackward) ∧
        ((endings (duplicatedClient.2.drop 6)).head? = some result ∨
          ∃ k, (duplicatedClient.1.workers k).pc.recordOutcome = some result) := by
  have hsplit : duplicatedClient.2 =
      duplicatedClient.2.take 5 ++ .connected 0 0 :: duplicatedClient.2.drop 6 := by
    decide +kernel
  have h : Reachable (demoConfig .failStop) duplicatedClient.1
      (duplicatedClient.2.take 5 ++ .connected 0 0 :: duplicatedClient.2.drop 6) :=
    hsplit ▸ ⟨1, Machine.run_perform (by decide +kernel)⟩
  obtain ⟨g, configuration, hrun, hconfiguration, hends⟩ :=
    late_copy_ends_session h rfl rfl (by decide +kernel)
  have hstate : (Serial.run (demoConfig .failStop) {}
      (duplicatedClient.2.take 5 ++ [.connected 0 0])).map (fun g =>
        (g.ft, g.configuration.map fun c => (g.serve (demoConfig .failStop) c
          ([sighting 1 false, sighting 2 false].map (·.received))).2)) = some ({}, some none) := by
    decide +kernel
  rw [hrun] at hstate
  simp only [Option.map_some, hconfiguration, Option.some.injEq, Prod.mk.injEq] at hstate
  obtain ⟨hft, hgoes⟩ := hstate
  have hlate : Sighted none [] (ftBaseline g.ft)
      ([sighting 1 false] ++ [sighting 2 false, sighting 1 true]) := by
    rw [hft]
    simp [Sighted, sighting, ftBaseline, Near, Ahead]
    decide
  obtain ⟨result, hresult, -, -, houtcome⟩ :=
    hends [sighting 1 false] (sighting 2 false) (sighting 1 true) (by decide +kernel) hlate
      (by simp [sighting]) rfl rfl (by simp [Ahead, sighting]; decide) hgoes
  exact ⟨by decide +kernel, result, hresult, houtcome.imp (·.1) (·.2)⟩

end NetFT.Client
