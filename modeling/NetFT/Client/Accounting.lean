import NetFT.Client.Outcomes

/-! Accounting of records. The counters of the accounting section are sums over the records that
the history reports as processed (`Reachable.tally`): no other step of a worker changes them, and
no entry point does. -/

namespace NetFT.Client
open Detail Library

variable {D : Type}

/-- The counters that `handle_record` keeps of the records it accounts for. -/
structure Tally where
  received : Nat := 0
  rateLimited : Nat := 0
  lost : Nat := 0
  duplicate : Nat := 0
  outOfOrder : Nat := 0
  ftStall : Nat := 0
  ftBackward : Nat := 0
  ftRestart : Nat := 0
  warning : Nat := 0
  deviceError : Nat := 0
  deriving DecidableEq, Repr

def tally (h : HealthSnapshot D) : Tally where
  received := h.receivedCount
  rateLimited := h.rateLimitedCount
  lost := h.lostCount
  duplicate := h.duplicateCount
  outOfOrder := h.outOfOrderCount
  ftStall := h.ftStallCount
  ftBackward := h.ftBackwardCount
  ftRestart := h.ftRestartCount
  warning := h.warningCount
  deviceError := h.deviceErrorCount

def Event.record : Event D → Option (Processed D)
  | .processed _ x => some x
  | _ => none

/-- The records that were processed, in order. -/
def records (l : List (Event D)) : List (Processed D) := l.filterMap Event.record

/-- The sums over the records of a history. -/
def Tally.of (xs : List (Processed D)) : Tally where
  received := xs.length
  rateLimited := xs.countP (·.rateLimited)
  lost := (xs.map fun x => if x.rdt.kind = .gap then x.rdt.gap.toNat else 0).sum
  duplicate := xs.countP (·.rdt.kind = .duplicate)
  outOfOrder := xs.countP (·.rdt.kind = .outOfOrder)
  ftStall := xs.countP (·.ft = .stall)
  ftBackward := xs.countP (·.ft = .backward)
  ftRestart := xs.countP (·.ft = .restart)
  warning := xs.countP (classifyStatus ·.record.status = .warn)
  deviceError := xs.countP (classifyStatus ·.record.status = .error)

/-- The sums with one more record. -/
def Tally.add (a : Tally) (x : Processed D) : Tally where
  received := a.received + 1
  rateLimited := a.rateLimited + if x.rateLimited then 1 else 0
  lost := a.lost + if x.rdt.kind = .gap then x.rdt.gap.toNat else 0
  duplicate := a.duplicate + if x.rdt.kind = .duplicate then 1 else 0
  outOfOrder := a.outOfOrder + if x.rdt.kind = .outOfOrder then 1 else 0
  ftStall := a.ftStall + if x.ft = .stall then 1 else 0
  ftBackward := a.ftBackward + if x.ft = .backward then 1 else 0
  ftRestart := a.ftRestart + if x.ft = .restart then 1 else 0
  warning := a.warning + if classifyStatus x.record.status = .warn then 1 else 0
  deviceError := a.deviceError + if classifyStatus x.record.status = .error then 1 else 0

theorem Tally.of_concat (xs : List (Processed D)) (x : Processed D) :
    Tally.of (xs ++ [x]) = (Tally.of xs).add x := by
  simp [Tally.of, Tally.add, List.countP_append, List.countP_singleton]

theorem records_append (l l' : List (Event D)) : records (l ++ l') = records l ++ records l' :=
  List.filterMap_append

theorem records_nil {l : List (Event D)} (h : ∀ e ∈ l, e.record = none) : records l = [] :=
  List.filterMap_eq_nil_iff.mpr h

theorem record_of_owner {e : Event D} (h : e.owner = none) : e.record = none := by
  cases e <;> first | rfl | cases h

variable {config : Config D} {w w' : World D} {t : Tid} {n : Nat} {c : Choice D}
  {worker : Worker D} {r : RunNext D}

/-- The accounting section adds the record. -/
theorem accounted_tally (config : Config D) (i : Impl D) (x : Processed D)
    (h : x.rateLimited = (i.verdict config x.record x.receivedAt x.rdt x.ft).rateLimited) :
    tally (i.accounted config x.record x.receivedAt x.rdt x.ft).health = (tally i.health).add x := by
  simp only [tally, Tally.add, Impl.accounted, Impl.countRecord, h]
  congr 1 <;> split <;> rfl

theorem tally_lifetime {h h' : HealthSnapshot D} (hlife : lifetime h = lifetime h') :
    tally h = tally h' := by
  have hsame : tally (lifetime h) = tally (lifetime h') := congrArg tally hlife
  exact hsame

theorem afterRecord_records {i : Impl D} {outcome : Option SessionResult}
    {events : List (Event D)} :
    records (afterRecord i worker n outcome events).events = records events := by
  cases outcome with
  | none => rfl
  | some result => simp [afterRecord, records, Event.record]

theorem applyConfiguration_tally [DecidableEq D] {i : Impl D}
    (configuration : SensorConfiguration D) :
    tally (i.applyConfiguration configuration).health = tally i.health := by
  unfold Impl.applyConfiguration
  split
  · split <;> rfl
  · rfl

theorem recordNext_tally [Double D] {p : RecordPc D}
    (hnext : recordNext config w n c worker p = some r)
    (hp : ∀ record receivedAt rdt ft, p ≠ .account record receivedAt rdt ft) :
    tally r.impl.health = tally w.impl.health := by
  cases p with
  | account record receivedAt rdt ft => exact absurd rfl (hp record receivedAt rdt ft)
  | _ =>
    simp only [recordNext] at hnext
    (repeat' split at hnext) <;> cases hnext <;> first | rfl | (rw [afterRecord_impl]; rfl)

section
variable [DecidableEq D] [Double D]

/-- Outside of the accounting section nothing is counted. -/
theorem runNext_tally_same {p : RunPc D} (hnext : runNext config w n c worker p = some r)
    (hp : ∀ record receivedAt rdt ft, p ≠ .session (.record (.account record receivedAt rdt ft))) :
    tally r.impl.health = tally w.impl.health := by
  cases p with
  | session q =>
    cases q with
    | record q => exact recordNext_tally hnext fun a b d e hq => hp a b d e (by rw [hq])
    | apply configuration => cases hnext; exact applyConfiguration_tally configuration
    | _ =>
      simp only [runNext, sessionNext] at hnext
      (repeat' split at hnext) <;> cases hnext <;> rfl
  | publish code message =>
    cases hnext
    simp only [Impl.publish]
    split <;> rfl
  | _ =>
    simp only [runNext] at hnext
    (repeat' split at hnext) <;> cases hnext <;> rfl

/-- A step of a worker processes at most one record, and counts it. -/
theorem runNext_tally {p : RunPc D} (hnext : runNext config w n c worker p = some r) :
    records r.events = [] ∧ tally r.impl.health = tally w.impl.health ∨
      ∃ x, records r.events = [x] ∧ .processed n x ∈ r.events ∧
        tally r.impl.health = (tally w.impl.health).add x := by
  by_cases hp : ∃ record receivedAt rdt ft,
      p = .session (.record (.account record receivedAt rdt ft))
  · obtain ⟨record, receivedAt, rdt, ft, rfl⟩ := hp
    simp only [runNext, sessionNext, recordNext] at hnext
    split at hnext
    · cases hnext
      exact .inl ⟨rfl, rfl⟩
    · obtain ⟨-, rfl, rfl⟩ := account_some ‹_›
      split at hnext <;> cases hnext
      · refine .inr ⟨_, afterRecord_records, afterRecord_processed.mpr (List.mem_singleton_self _), ?_⟩
        rw [afterRecord_impl]
        exact accounted_tally config w.impl ⟨record, receivedAt, rdt, ft, _, _⟩ rfl
      · refine .inr ⟨_, rfl, List.mem_singleton_self _, ?_⟩
        exact accounted_tally config w.impl ⟨record, receivedAt, rdt, ft, _, _⟩ rfl
  · have hnone : ∀ e ∈ r.events, e.record = none := by
      intro e he
      cases e with
      | processed k x =>
        obtain ⟨-, hpc, -⟩ := runNext_processed hnext he
        exact absurd ⟨_, _, _, _, hpc⟩ hp
      | _ => rfl
    refine .inl ⟨records_nil hnone, runNext_tally_same hnext fun a b d e hpc => ?_⟩
    exact hp ⟨a, b, d, e, hpc⟩

/-- The counters are the sums over the processed records. -/
theorem Reachable.tally {l : List (Event D)} (h : Reachable config w l) :
    Client.tally w.impl.health = Tally.of (records l) := by
  refine h.induction (I := fun v k => Client.tally v.impl.health = Tally.of (records k))
    (fun _ => rfl) ?_
  intro v v' k k' hv hi hm
  rw [records_append]
  cases hm with
  | tick | spurious | call => exact (List.append_nil (records k)).symm ▸ hi
  | api t c r hnext htake =>
    have hnone : ∀ e ∈ r.events, e.record = none := fun e he =>
      record_of_owner (owner_of_byApi (apiNext_events hnext e he))
    rw [records_nil hnone, List.append_nil, ← hi]
    exact tally_lifetime (apiNext_lifetime hnext (hv.savedLifetime t)).1
  | run n c r hnext htake =>
    rcases runNext_tally hnext with ⟨hnone, hsame⟩ | ⟨x, hone, -, hadd⟩
    · rw [hnone, List.append_nil, ← hi]
      exact hsame
    · rw [hone, Tally.of_concat, ← hi]
      exact hadd

end

end NetFT.Client
