import NetFT.Client.Outcomes
import NetFT.Detail.Tracking

/-! Records of one RDT epoch, from a reset of the tracker to the next one, in `handle_record`. Each
record has an unbounded stream position, of which the tracker sees the remainder modulo `2^32`. -/

namespace NetFT.Client
open Detail

variable {D : Type}

/-- A record on its way to `handle_record`, with its position in the stream and the result of the
callback should it be called. -/
structure Arrival where
  position : Int
  record : RawRecord
  receivedAt : TimePoint
  callback : CallbackResult

/-- The record carries its position. -/
def Arrival.Carries (a : Arrival) : Prop := a.record.rdtSequence = word a.position

/-- What became of the records of an epoch: the observations of the tracker, and the positions of
the records that were delivered. -/
structure Epoch (D : Type) where
  impl : Impl D
  observations : List SequenceObservation := []
  delivered : List Int := []

def handleArrivals [Double D] (config : Config D) : Impl D → List Arrival → Option (Epoch D)
  | i, [] => some { impl := i }
  | i, a :: arrivals =>
    match handleRecord config i a.record a.receivedAt a.callback with
    | none => none
    | some (i', _, sample) =>
      match handleArrivals config i' arrivals with
      | none => none
      | some e =>
        some { impl := e.impl
               observations := (i.observe a.record).2.1 :: e.observations
               delivered := if sample.isSome then a.position :: e.delivered else e.delivered }

/-- `handle_record` as far as the tracker and `lost_count` are concerned. -/
structure Tracked (i i' : Impl D) (record : RawRecord) (sample : Option (Sample D)) : Prop where
  tracker : i'.rdtSequence = (i.rdtSequence.observe record.rdtSequence).1
  lost : i'.health.lostCount =
    i.health.lostCount + (i.rdtSequence.observe record.rdtSequence).2.lost
  configuration : i'.health.sensorConfiguration = i.health.sensorConfiguration
  advances : sample.isSome = true → (i.rdtSequence.observe record.rdtSequence).2.advances = true

variable {config : Config D} {i : Impl D}

theorem recordVerdict_advances {lastDeliveryAt receivedAt : TimePoint} {o : SequenceObservation}
    {ft : FtSequenceKind} {severity : StatusSeverity}
    (h : (recordVerdict config lastDeliveryAt receivedAt o.kind ft severity).deliver = true) :
    o.advances = true := by
  obtain ⟨kind, gap⟩ := o
  cases kind with
  | duplicate | outOfOrder =>
    simp only [recordVerdict] at h
    (repeat' split at h) <;> simp_all
  | _ => rfl

theorem Impl.accounted_tracked (i : Impl D) (config : Config D) (record : RawRecord)
    (receivedAt : TimePoint) (rdt : SequenceObservation) (ft : FtSequenceKind) :
    (i.accounted config record receivedAt rdt ft).health.lostCount = i.health.lostCount + rdt.lost ∧
      (i.accounted config record receivedAt rdt ft).rdtSequence = i.rdtSequence ∧
      (i.accounted config record receivedAt rdt ft).health.sensorConfiguration =
        i.health.sensorConfiguration := by
  refine ⟨?_, rfl, rfl⟩
  simp only [Impl.accounted, Impl.countRecord, SequenceObservation.lost]
  split <;> rfl

theorem handleRecord_tracked [Double D] (config : Config D)
    (hconf : i.health.sensorConfiguration.isSome = true)
    (record : RawRecord) (receivedAt : TimePoint) (callback : CallbackResult) :
    ∃ i' outcome sample,
      handleRecord config i record receivedAt callback = some (i', outcome, sample) ∧
        Tracked i i' record sample := by
  obtain ⟨configuration, hconf⟩ := Option.isSome_iff_exists.mp hconf
  have hconf : (i.observe record).1.health.sensorConfiguration = some configuration := hconf
  obtain ⟨hlost, htracker, hsame⟩ := (i.observe record).1.accounted_tracked config
    record receivedAt (i.observe record).2.1 (i.observe record).2.2
  simp only [handleRecord, Impl.account, hconf]
  cases hdispose : dispose configuration record receivedAt
      ((i.observe record).1.verdict config record receivedAt (i.observe record).2.1
        (i.observe record).2.2) with
  | finish outcome =>
    exact ⟨_, _, _, rfl, htracker, hlost, hsame, fun h => by cases h⟩
  | deliver sample outcome =>
    cases callback with
    | some message => exact ⟨_, _, _, rfl, htracker, hlost, hsame, fun h => by cases h⟩
    | none =>
      obtain ⟨hdeliver, -⟩ := dispose_deliver hdispose
      exact ⟨_, _, _, rfl, htracker, hlost, hsame, fun _ => recordVerdict_advances hdeliver⟩

/-- The positions of the records that may be delivered. -/
def accepted (positions : List Int) (observations : List SequenceObservation) : List Int :=
  ((positions.zip observations).filter fun p => p.2.advances).map fun p => p.1

theorem accepted_sublist (positions : List Int) (observations : List SequenceObservation) :
    (accepted positions observations).Sublist positions := by
  induction positions generalizing observations with
  | nil => simp [accepted]
  | cons n positions ih =>
    cases observations with
    | nil => simp [accepted]
    | cons o observations =>
      have hcons : accepted (n :: positions) (o :: observations) =
          if o.advances then n :: accepted positions observations
          else accepted positions observations := by
        unfold accepted
        rw [List.zip_cons_cons, List.filter_cons]
        split <;> rfl
      rw [hcons]
      split
      · exact (ih observations).cons_cons n
      · exact (ih observations).cons n

/-- What happens to the records of an epoch when the tracker is at position `first`. -/
structure InOrder (first : Int) (i : Impl D) (positions : List Int) (e : Epoch D) : Prop where
  observations : e.observations = (feed i.rdtSequence positions).2
  sublist : e.delivered.Sublist (accepted positions e.observations)
  increasing : (first :: accepted positions e.observations).Pairwise (· < ·)
  count : ((e.observations.filter (·.advances)).length : Int) + e.impl.health.lostCount =
    i.health.lostCount + (front first positions - first)

theorem handleArrivals_inOrder [Double D] (config : Config D) (arrivals : List Arrival)
    {first : Int} (hat : i.rdtSequence.At first)
    (hconf : i.health.sensorConfiguration.isSome = true) (hcarries : ∀ a ∈ arrivals, a.Carries)
    (hwin : Windowed first (arrivals.map (·.position))) :
    ∃ e, handleArrivals config i arrivals = some e ∧
      InOrder first i (arrivals.map (·.position)) e := by
  induction arrivals generalizing i first with
  | nil =>
    exact ⟨_, rfl, rfl, .slnil, by simp [accepted], by simp [front]⟩
  | cons a arrivals ih =>
    have hwin : Windowed first (a.position :: arrivals.map (·.position)) := hwin
    obtain ⟨hnear, hrest⟩ := windowed_cons.mp hwin
    have hcarry : a.record.rdtSequence = word a.position := hcarries a (by simp)
    obtain ⟨i', outcome, sample, hhandle, htracked⟩ :=
      handleRecord_tracked config hconf a.record a.receivedAt a.callback
    obtain ⟨hat', hobserve⟩ := hat.observe hnear
    have htracker := htracked.tracker
    have hlost := htracked.lost
    have hadvances := htracked.advances
    rw [hcarry] at htracker hlost hadvances
    rw [hobserve] at hlost hadvances
    obtain ⟨e, he, horder⟩ := ih (htracker ▸ hat') (by rw [htracked.configuration]; exact hconf)
      (fun b hb => hcarries b (by simp [hb])) hrest
    have hfirst : (i.observe a.record).2.1 = classify first a.position := by
      rw [← hobserve, ← hcarry]; rfl
    refine ⟨{ impl := e.impl
              observations := classify first a.position :: e.observations
              delivered := if sample.isSome then a.position :: e.delivered else e.delivered },
      by simp only [handleArrivals, hhandle, he, hfirst], ?_⟩
    have hfeed : classify first a.position :: e.observations =
        (feed i.rdtSequence (a.position :: arrivals.map (·.position))).2 := by
      simp only [feed, hobserve, horder.observations, htracker]
    have hcount := horder.count
    rcases hnear.advances with ⟨hadv, hlt, hskip⟩ | ⟨hadv, hle, hskip⟩
    · have hmax : max first a.position = a.position := by omega
      rw [hmax] at horder hcount
      have hincreasing := horder.increasing
      have haccepted : accepted (a.position :: arrivals.map (·.position))
          (classify first a.position :: e.observations) =
            a.position :: accepted (arrivals.map (·.position)) e.observations := by
        simp [accepted, hadv]
      constructor
      · exact hfeed
      · rw [List.map_cons, haccepted]
        dsimp only
        split
        · exact horder.sublist.cons_cons _
        · exact horder.sublist.cons _
      · rw [List.map_cons, haccepted]
        refine .cons (fun n hn => ?_) hincreasing
        rcases List.mem_cons.mp hn with rfl | hn
        · exact hlt
        · exact Int.lt_trans hlt ((List.pairwise_cons.mp hincreasing).1 n hn)
      · simp only [List.filter_cons, hadv, if_true, List.length_cons, List.map_cons, front,
          List.foldl_cons, hmax] at hcount ⊢
        omega
    · have hmax : max first a.position = first := by omega
      rw [hmax] at horder hcount
      have haccepted : accepted (a.position :: arrivals.map (·.position))
          (classify first a.position :: e.observations) =
            accepted (arrivals.map (·.position)) e.observations := by
        simp [accepted, hadv]
      have hnot : sample.isSome = false := by
        cases hsome : sample.isSome with
        | false => rfl
        | true => simp [hadvances hsome] at hadv
      constructor
      · exact hfeed
      · rw [List.map_cons, haccepted]
        simpa [hnot] using horder.sublist
      · rw [List.map_cons, haccepted]
        exact horder.increasing
      · simp only [List.filter_cons, hadv, List.map_cons, front, List.foldl_cons, hmax] at hcount ⊢
        simp only [Bool.false_eq_true, if_false]
        omega

/-- The tracker refines the comparison of unbounded stream positions, for every epoch whose
positions stay in its window; and of the records of an epoch, `handle_record` delivers no position
twice and none out of order, and accounts for every position up to the largest one, as a record
that may be delivered or as lost. -/
theorem rdt_refines_positions [Double D] {first : Int} {rest : List Int}
    (hwin : Windowed first rest) :
    (∀ t : RdtSequenceTracker, t.hasLast = false →
      (t.observe (word first)).2 = { kind := .first } ∧
      (∀ before n after, rest = before ++ n :: after →
        Refines (front first before) n ((feed t (first :: before)).1.observe (word n)).2) ∧
      (feed t (first :: rest)).1.hasLast = true ∧
      (feed t (first :: rest)).1.previous = word (front first rest)) ∧
    ∀ (config : Config D) (i : Impl D) (arrivals : List Arrival),
      i.rdtSequence.hasLast = false → i.health.sensorConfiguration.isSome = true →
      (∀ a ∈ arrivals, a.Carries) → arrivals.map (·.position) = first :: rest →
      ∃ e, handleArrivals config i arrivals = some e ∧
        e.observations = (feed i.rdtSequence (first :: rest)).2 ∧
        e.delivered.Sublist (first :: rest) ∧ e.delivered.Pairwise (· < ·) ∧
        ((e.observations.filter (·.advances)).length : Int) +
          ((e.impl.health.lostCount : Int) - i.health.lostCount) = front first rest - first + 1 := by
  refine ⟨fun t ht => ?_, fun config i arrivals ht hconf hcarries hpositions => ?_⟩
  · obtain ⟨hat, hfirst⟩ := observe_first ht first
    obtain ⟨hlast, hprevious⟩ := feed_at hat hwin
    refine ⟨hfirst, fun before n after heq => ?_, hlast, hprevious⟩
    have hbefore : Windowed first before := by
      intro b m a hb
      exact hwin b m (a ++ n :: after) (by simp [heq, hb])
    have hnear := hwin before n after heq
    rw [feed_cons, ((feed_at hat hbefore).observe hnear).2]
    exact hnear.refines
  · cases arrivals with
    | nil => cases hpositions
    | cons a arrivals =>
      obtain ⟨hposition, hrest⟩ := List.cons.inj hpositions
      have hcarry : a.record.rdtSequence = word first := hposition ▸ hcarries a (by simp)
      obtain ⟨i', outcome, sample, hhandle, htracked⟩ :=
        handleRecord_tracked config hconf a.record a.receivedAt a.callback
      obtain ⟨hat, hfirst⟩ := observe_first ht first
      have htracker := htracked.tracker
      have hlost := htracked.lost
      rw [hcarry] at htracker hlost
      rw [hfirst] at hlost
      obtain ⟨e, he, horder⟩ := handleArrivals_inOrder config arrivals
        (htracker ▸ hat) (by rw [htracked.configuration]; exact hconf)
        (fun b hb => hcarries b (by simp [hb])) (by rw [hrest]; exact hwin)
      rw [hrest] at horder
      have hobserve : (i.observe a.record).2.1 = { kind := .first } := by
        rw [← hfirst, ← hcarry]; rfl
      have hsublist := horder.sublist
      have hcount := horder.count
      refine ⟨{ impl := e.impl
                observations := { kind := .first } :: e.observations
                delivered := if sample.isSome then a.position :: e.delivered else e.delivered },
        by simp only [handleArrivals, hhandle, he, hobserve], ?_, ?_, ?_, ?_⟩
      · simp only [feed, hfirst, horder.observations, htracker]
      · have hpos := hsublist.trans (accepted_sublist rest e.observations)
        dsimp only
        split
        · rw [show a.position = first from hposition]; exact hpos.cons_cons _
        · exact hpos.cons _
      · have hall := horder.increasing.sublist (hsublist.cons_cons first)
        dsimp only
        split
        · rw [show a.position = first from hposition]; exact hall
        · exact hall.of_cons
      · have hzero : ({ kind := .first } : SequenceObservation).lost = 0 := rfl
        have hone : ({ kind := .first } : SequenceObservation).advances = true := rfl
        simp only [List.filter_cons, hone, if_true, List.length_cons]
        omega

/-- An epoch that crosses `2^32`, with a gap and a late record. -/
theorem rdt_refines_positions_rollover :
    Windowed (2 ^ 32 - 1) [2 ^ 32, 2 ^ 32 + 5, 2 ^ 32 + 2] ∧
      ((feed {} [2 ^ 32 - 1, 2 ^ 32]).1.observe (word (2 ^ 32 + 5))).2.kind = .gap := by
  have hwin : Windowed (2 ^ 32 - 1) [2 ^ 32, 2 ^ 32 + 5, 2 ^ 32 + 2] := by
    simp only [windowed_cons, windowed_nil, Near]
    decide
  have hrefines := (rdt_refines_positions (D := Rat) hwin).1 {} rfl
  exact ⟨hwin, (hrefines.2.1 [2 ^ 32] (2 ^ 32 + 5) [2 ^ 32 + 2] rfl).gap.mpr (by decide)⟩

end NetFT.Client
