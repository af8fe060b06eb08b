import Mathlib.Algebra.BigOperators.Group.Finset.Basic
import NetFT.Client.Accounting

/-! Where the records go. Every record that was processed was rate limited, or suppressed for a
reason, or accepted, and exactly one of these (`Processed.Sorted`); every accepted record was
delivered or ended in a callback error, except for the one that the worker has in hand
(`Reachable.balanced`). A non-empty callback is invoked once for each accepted record, unless it
cannot be copied. -/

namespace NetFT.Client
open Detail Library

variable {D : Type}

/-! ## One record -/

/-- The record is not to be delivered, whatever its axes are. -/
def filtered (config : Config D) (rdt : SequenceKind) (ft : FtSequenceKind)
    (severity : StatusSeverity) : Bool :=
  rdt = .duplicate || rdt = .outOfOrder || ftDiscontinuity ft ||
    (severity = .error && !config.deliverSamplesWithErrorStatus)

namespace Processed

/-- The record was converted to a sample with finite axes. -/
def accepted [Double D] (x : Processed D) : Bool := x.converted.any finiteAxes

/-- The record was filtered, or its converted axes were not finite. -/
def suppressed [Double D] (config : Config D) (x : Processed D) : Bool :=
  filtered config x.rdt.kind x.ft (classifyStatus x.record.status) ||
    x.converted.any fun sample => !finiteAxes sample

/-- The record went exactly one way. -/
def Sorted [Double D] (config : Config D) (x : Processed D) : Prop :=
  x.rateLimited.toNat + (x.suppressed config).toNat + x.accepted.toNat = 1

end Processed

variable {config : Config D} {w w' : World D} {t : Tid} {n k : Nat} {c : Choice D}
  {worker : Worker D} {r : RunNext D} {l l' : List (Event D)}

/-- Only what is not filtered is rate limited. -/
theorem recordVerdict_filtered (config : Config D) (lastDeliveryAt receivedAt : TimePoint)
    (rdt : SequenceKind) (ft : FtSequenceKind) (severity : StatusSeverity) :
    (recordVerdict config lastDeliveryAt receivedAt rdt ft severity).rateLimited = true ∧
      (recordVerdict config lastDeliveryAt receivedAt rdt ft severity).deliver = false ∧
      filtered config rdt ft severity = false ∨
    (recordVerdict config lastDeliveryAt receivedAt rdt ft severity).rateLimited = false ∧
      (recordVerdict config lastDeliveryAt receivedAt rdt ft severity).deliver =
        !filtered config rdt ft severity := by
  cases hft : ftDiscontinuity ft <;> by_cases hseverity : severity = .error <;>
    cases hdeliver : config.deliverSamplesWithErrorStatus <;>
    cases hlimit : rateLimitHolds config lastDeliveryAt receivedAt <;> cases rdt <;>
    simp [recordVerdict, filtered, hft, hseverity, hdeliver, hlimit]

theorem processed_sorted [DecidableEq D] [Double D] {p : RunPc D} {x : Processed D}
    (hnext : runNext config w n c worker p = some r) (he : .processed k x ∈ r.events) :
    x.Sorted config := by
  obtain ⟨-, -, -, configuration, -, hlimited, hconverted⟩ := runNext_processed hnext he
  have hverdict := recordVerdict_filtered config w.impl.lastDeliveryAt x.receivedAt x.rdt.kind x.ft
    (classifyStatus x.record.status)
  unfold Processed.Sorted Processed.suppressed Processed.accepted
  rcases hverdict with ⟨hlimit, hdeliver, hfiltered⟩ | ⟨hlimit, hdeliver⟩
  · rw [hlimited, hconverted]
    simp [Impl.verdict, hlimit, hdeliver, hfiltered]
  · rw [hlimited, hconverted]
    simp only [Impl.verdict, hlimit, hdeliver]
    cases filtered config x.rdt.kind x.ft (classifyStatus x.record.status) with
    | true => simp
    | false =>
      cases hfinite : finiteAxes (makeSample configuration x.record x.receivedAt) <;>
        simp [hfinite]

/-- The sums over the ways the records of a history went. -/
theorem Sorted.sum [Double D] {xs : List (Processed D)} (h : ∀ x ∈ xs, x.Sorted config) :
    xs.length = xs.countP (·.rateLimited) + xs.countP (·.suppressed config) +
      xs.countP (·.accepted) := by
  induction xs with
  | nil => rfl
  | cons x xs ih =>
    have hx := h x List.mem_cons_self
    have hxs := ih fun y hy => h y (List.mem_cons_of_mem _ hy)
    have hone : ∀ b : Bool, (if b = true then 1 else 0) = b.toNat := by decide
    unfold Processed.Sorted at hx
    simp only [List.length_cons, List.countP_cons, hxs, hone]
    omega

/-! ## The entries of a worker -/

/-- What happens to the record that a worker has in hand. -/
inductive Entry
  | accepted | invoked | copyFailed | failed | delivered
  deriving DecidableEq, Repr

def Event.entry [Double D] : Event D → Option (Nat × Entry)
  | .processed n x => if x.accepted then some (n, .accepted) else none
  | .invoked n _ => some (n, .invoked)
  | .copyFailed n => some (n, .copyFailed)
  | .callbackError n => some (n, .failed)
  | .delivered n _ => some (n, .delivered)
  | _ => none

/-- How many entries of a kind the given workers have made. -/
def entries [Double D] (who : Nat → Bool) (kind : Entry) (l : List (Event D)) : Nat :=
  l.countP fun e => e.entry.any fun entry => who entry.1 && entry.2 = kind

/-- The worker has an accepted record in hand. -/
def RunPc.pending : RunPc D → Nat
  | .session (.record (.copyCallback ..)) | .session (.record (.inCallback ..))
  | .session (.record (.callbackFailed ..)) | .session (.record (.commit ..))
  | .session (.record (.commitData ..)) => 1
  | _ => 0

/-- The worker has called the callback for it, or tried to copy it. -/
def RunPc.called : RunPc D → Nat
  | .session (.record (.inCallback ..)) | .session (.record (.callbackFailed ..))
  | .session (.record (.commit ..)) | .session (.record (.commitData ..)) => 1
  | _ => 0

/-- The worker is in the callback, or has just left it with an exception. -/
def RunPc.calling : RunPc D → Bool
  | .session (.record (.inCallback ..)) | .session (.record (.callbackFailed ..)) => true
  | _ => false

/-- The worker is inside `handle_record`. -/
def RunPc.inRecord : RunPc D → Bool
  | .session (.record _) => true
  | _ => false

/-- A count of what a worker has in hand in `handle_record`. -/
def Counts (f : RunPc D → Nat) : Prop := ∀ p, p.inRecord = false → f p = 0

theorem counts_pending : Counts (D := D) RunPc.pending := fun p hp => by
  cases p with
  | session q =>
    cases q with
    | record => cases hp
    | _ => rfl
  | _ => rfl

theorem counts_called : Counts (D := D) RunPc.called := fun p hp => by
  cases p with
  | session q =>
    cases q with
    | record => cases hp
    | _ => rfl
  | _ => rfl

theorem afterRecord_pending (i : Impl D) (worker : Worker D) (n : Nat)
    (outcome : Option SessionResult) (events : List (Event D)) :
    (afterRecord i worker n outcome events).worker.pc.pending = 0 ∧
      (afterRecord i worker n outcome events).worker.pc.called = 0 ∧
      (afterRecord i worker n outcome events).worker.pc.calling = false := by
  cases outcome <;> exact ⟨rfl, rfl, rfl⟩

section
variable [Double D]

theorem entries_append (who : Nat → Bool) (kind : Entry) (l l' : List (Event D)) :
    entries who kind (l ++ l') = entries who kind l + entries who kind l' :=
  List.countP_append

theorem entries_zero {who : Nat → Bool} {kind : Entry}
    (h : ∀ e ∈ l, ∀ entry, e.entry = some entry → who entry.1 = false ∨ entry.2 ≠ kind) :
    entries who kind l = 0 := by
  refine List.countP_eq_zero.mpr fun e he => ?_
  cases hentry : e.entry with
  | none => simp
  | some entry => rcases h e he entry hentry with hwho | hkind <;> simp [*]

theorem owner_of_entry {e : Event D} {entry : Nat × Entry} (h : e.entry = some entry) :
    e.owner = some entry.1 := by
  cases e with
  | processed n x =>
    simp only [Event.entry] at h
    split at h <;> cases h
    rfl
  | _ => cases h <;> rfl

theorem afterRecord_entries {i : Impl D} {outcome : Option SessionResult}
    {events : List (Event D)} (who : Nat → Bool) (kind : Entry) :
    entries who kind (afterRecord i worker n outcome events).events = entries who kind events := by
  cases outcome with
  | none => rfl
  | some result => simp [afterRecord, entries, Event.entry]

/-- What a worker does with the record it has in hand. -/
structure Books (who : Nat → Bool) (callback : Option Nat) (p p' : RunPc D)
    (events : List (Event D)) : Prop where
  accepted : entries who .accepted events + p.pending =
    entries who .delivered events + entries who .failed events + p'.pending
  invoked : callback ≠ none → entries who .invoked events + entries who .copyFailed events +
    p.called = entries who .delivered events + entries who .failed events + p'.called
  empty : callback = none → p.calling = false → entries who .invoked events = 0 ∧
    entries who .copyFailed events = 0 ∧ entries who .failed events = 0 ∧ p'.calling = false

theorem Books.nothing {who : Nat → Bool} {callback : Option Nat} {p p' : RunPc D}
    {events : List (Event D)} (hevents : ∀ kind, entries who kind events = 0)
    (hpending : p'.pending = p.pending) (hcalled : p'.called = p.called)
    (hcalling : p.calling = false → p'.calling = false) : Books who callback p p' events where
  accepted := by rw [hevents, hevents, hevents, hpending]
  invoked _ := by rw [hevents, hevents, hevents, hevents, hcalled]
  empty _ h := ⟨hevents _, hevents _, hevents _, hcalling h⟩

/-- The bookkeeping at the end of `handle_record`. -/
theorem afterRecord_books {who : Nat → Bool} {callback : Option Nat} {p : RunPc D} {i : Impl D}
    {outcome : Option SessionResult} {events : List (Event D)}
    (haccepted : entries who .accepted events + p.pending =
      entries who .delivered events + entries who .failed events)
    (hinvoked : entries who .invoked events + entries who .copyFailed events + p.called =
      entries who .delivered events + entries who .failed events)
    (hempty : p.calling = false → entries who .invoked events = 0 ∧
      entries who .copyFailed events = 0 ∧ entries who .failed events = 0) :
    Books who callback p (afterRecord i worker n outcome events).worker.pc
      (afterRecord i worker n outcome events).events := by
  obtain ⟨hpending, hcalled, hcalling⟩ :=
    afterRecord_pending i worker n outcome events
  constructor
  · simp only [afterRecord_entries, hpending]
    exact haccepted
  · intro _
    simp only [afterRecord_entries, hcalled]
    exact hinvoked
  · intro _ h
    simp only [afterRecord_entries]
    obtain ⟨h₁, h₂, h₃⟩ := hempty h
    exact ⟨h₁, h₂, h₃, hcalling⟩

theorem entries_processed {who : Nat → Bool} (hwho : who n = true) (x : Processed D) (kind : Entry) :
    entries who kind [.processed n x] = if x.accepted && kind = .accepted then 1 else 0 := by
  cases haccepted : x.accepted <;> cases kind <;>
    simp [entries, Event.entry, haccepted, hwho]

theorem finished_books {who : Nat → Bool} (hwho : who n = true) {callback : Option Nat}
    {p : RecordPc D} {i : Impl D} {outcome : Option SessionResult} {x : Processed D}
    (hpending : (RunPc.session (.record p)).pending = 0)
    (hcalled : (RunPc.session (.record p)).called = 0) (hx : x.accepted = false) :
    Books who callback (.session (.record p))
      (afterRecord i worker n outcome [.processed n x]).worker.pc
      (afterRecord i worker n outcome [.processed n x]).events := by
  have hzero : ∀ kind, entries who kind [.processed n x] = 0 := fun kind => by
    rw [entries_processed hwho, hx]; rfl
  exact afterRecord_books (by rw [hzero, hzero, hzero, hpending])
    (by rw [hzero, hzero, hzero, hzero, hcalled]) fun _ => ⟨hzero _, hzero _, hzero _⟩

theorem accepted_books {who : Nat → Bool} (hwho : who n = true) {callback : Option Nat}
    {record : RawRecord} {receivedAt : TimePoint} {rdt : SequenceObservation} {ft : FtSequenceKind}
    {sample : Sample D} {outcome : Option SessionResult} {x : Processed D}
    (hx : x.accepted = true) :
    Books who callback (.session (.record (.account record receivedAt rdt ft)))
      (.session (.record (.copyCallback sample outcome))) [.processed n x] := by
  have hentries := entries_processed hwho x
  rw [hx] at hentries
  refine ⟨?_, fun _ => ?_, fun _ _ => ?_⟩
  · simp [hentries, RunPc.pending]
  · simp [hentries, RunPc.called]
  · simp [hentries, RunPc.calling]

theorem recordNext_books {who : Nat → Bool} (hwho : who n = true) {p : RecordPc D}
    (hnext : recordNext config w n c worker p = some r) :
    Books who w.impl.callback (.session (.record p)) r.worker.pc r.events := by
  cases p with
  | observe record receivedAt => cases hnext; exact .nothing (fun _ => rfl) rfl rfl fun _ => rfl
  | account record receivedAt rdt ft =>
    simp only [recordNext] at hnext
    split at hnext
    · cases hnext; exact .nothing (fun _ => rfl) rfl rfl fun _ => rfl
    · obtain ⟨-, rfl, rfl⟩ := account_some ‹_›
      split at hnext <;> cases hnext
      · rename_i hdispose
        refine finished_books hwho rfl rfl ?_
        rcases dispose_finish hdispose with ⟨hdeliver, -⟩ | ⟨hdeliver, hfinite, -⟩
        · simp [Processed.accepted, hdeliver]
        · simp [Processed.accepted, hdeliver, hfinite]
      · rename_i hdispose
        obtain ⟨hdeliver, rfl, hfinite, -⟩ := dispose_deliver hdispose
        exact accepted_books hwho (by simp [Processed.accepted, hdeliver, hfinite])
  | copyCallback sample outcome =>
    simp only [recordNext] at hnext
    split at hnext
    · rename_i hcallback
      cases hnext
      exact ⟨rfl, fun h => absurd hcallback h, fun _ _ => ⟨rfl, rfl, rfl, rfl⟩⟩
    · rename_i hcallback
      split at hnext <;> cases hnext
      · refine ⟨?_, fun _ => ?_, fun h => ?_⟩
        · simp [entries, Event.entry, RunPc.pending]
        · simp [entries, Event.entry, hwho, RunPc.called]
        · simp [hcallback] at h
      · refine ⟨?_, fun _ => ?_, fun h => ?_⟩
        · simp [entries, Event.entry, RunPc.pending]
        · simp [entries, Event.entry, hwho, RunPc.called]
        · simp [hcallback] at h
  | inCallback sample outcome =>
    simp only [recordNext] at hnext
    split at hnext <;> cases hnext
    · exact .nothing (fun _ => rfl) rfl rfl fun _ => rfl
    · exact .nothing (fun _ => rfl) rfl rfl (fun h => by cases h)
  | callbackFailed message outcome =>
    cases hnext
    refine afterRecord_books ?_ ?_ (fun h => by cases h)
    · simp [entries, Event.entry, hwho, RunPc.pending]
    · simp [entries, Event.entry, hwho, RunPc.called]
  | commit sample outcome => cases hnext; exact .nothing (fun _ => rfl) rfl rfl fun _ => rfl
  | commitData sample outcome =>
    cases hnext
    refine ⟨?_, fun _ => ?_, fun _ _ => ?_⟩
    · simp [entries, Event.entry, hwho, RunPc.pending]
    · simp [entries, Event.entry, hwho, RunPc.called]
    · simp [entries, Event.entry, RunPc.calling]
  | notifyFirst outcome => cases hnext; exact .nothing (fun _ => rfl) rfl rfl fun _ => rfl
  | notifyLifecycle outcome =>
    cases hnext
    exact afterRecord_books rfl rfl fun _ => ⟨rfl, rfl, rfl⟩

end

section
variable [DecidableEq D] [Double D]

/-- A worker takes a record in hand only in `handle_record`. -/
theorem runNext_idle {p : RunPc D} (hnext : runNext config w n c worker p = some r)
    (hp : p.inRecord = false) :
    r.worker.pc.pending = 0 ∧ r.worker.pc.called = 0 ∧ r.worker.pc.calling = false := by
  cases p with
  | session q =>
    cases q with
    | record q => cases hp
    | received datagram =>
      simp only [runNext, sessionNext] at hnext
      split at hnext
      · cases hnext; exact ⟨rfl, rfl, rfl⟩
      · split at hnext
        · cases hnext; exact ⟨rfl, rfl, rfl⟩
        · split at hnext <;> cases hnext <;> exact ⟨rfl, rfl, rfl⟩
    | pollCheck =>
      cases hnext
      dsimp only
      split <;> exact ⟨rfl, rfl, rfl⟩
    | _ =>
      simp only [runNext, sessionNext] at hnext
      (repeat' split at hnext) <;> cases hnext <;> exact ⟨rfl, rfl, rfl⟩
  | closeTransport context =>
    cases hnext
    cases context <;> exact ⟨rfl, rfl, rfl⟩
  | raised message | finalFaulted =>
    cases hnext
    dsimp only
    split <;> exact ⟨rfl, rfl, rfl⟩
  | _ =>
    simp only [runNext] at hnext
    (repeat' split at hnext) <;> cases hnext <;> exact ⟨rfl, rfl, rfl⟩

theorem entry_of_next {p : RunPc D} (hnext : runNext config w n c worker p = some r)
    {e : Event D} (he : e ∈ r.events) {entry : Nat × Entry} (hentry : e.entry = some entry) :
    p.inRecord = true := by
  have hat := runNext_reportedAt hnext e he
  cases e with
  | processed k x =>
    obtain ⟨-, hpc, -⟩ := runNext_processed hnext he
    rw [hpc]
    rfl
  | copyFailed | callbackError =>
    obtain ⟨_, _, hpc⟩ := hat
    rw [hpc]
    rfl
  | invoked | delivered =>
    obtain ⟨_, hpc⟩ := hat
    rw [hpc]
    rfl
  | _ => cases hentry

theorem runNext_books {who : Nat → Bool} (hwho : who n = true) {p : RunPc D}
    (hnext : runNext config w n c worker p = some r) :
    Books who w.impl.callback p r.worker.pc r.events := by
  cases hp : p.inRecord with
  | true =>
    cases p with
    | session q =>
      cases q with
      | record q => exact recordNext_books hwho hnext
      | _ => cases hp
    | _ => cases hp
  | false =>
    have hzero : ∀ kind, entries who kind r.events = 0 := fun kind =>
      entries_zero fun e he entry hentry => by
        rw [entry_of_next hnext he hentry] at hp
        cases hp
    obtain ⟨hpending, hcalled, hcalling⟩ := runNext_idle hnext hp
    exact .nothing hzero (by rw [hpending, counts_pending p hp])
      (by rw [hcalled, counts_called p hp]) fun _ => hcalling

end

/-! ## The callback of a run -/

/-- The callback is stored by a `start` that has found no worker. -/
theorem apiNext_callback {p : ApiPc D} {r : ApiNext D} (hnext : apiNext w t c p = some r) :
    r.impl.callback = w.impl.callback ∧ r.spawn = false ∨
      (p.role = .quiet ∨ p.role = .cleared) ∧ r.spawn = false ∨
      ∃ callback previous, p = .start callback (.create previous) ∧ r.impl.callback = callback ∧
        r.spawn = true := by
  cases apiNext_step hnext with
  | @created callback previous => exact .inr (.inr ⟨callback, previous, rfl, rfl, rfl⟩)
  | save => exact .inr (.inl ⟨.inl rfl, rfl⟩)
  | notCreated | rollbackExited => exact .inr (.inl ⟨.inr rfl, rfl⟩)
  | rollbackPublish =>
    refine .inl ⟨?_, rfl⟩
    simp only [Impl.publish]
    split <;> rfl
  | _ => exact .inl ⟨rfl, rfl⟩

/-- A step of `start` does not change its argument. -/
theorem apiNext_argument {p : ApiPc D} {r : ApiNext D} (hnext : apiNext w t c p = some r)
    {callback : Option Nat} {q : StartPc D} (hr : r.pc = .start callback q) :
    ∃ q, p = .start callback q := by
  cases apiNext_step hnext <;> cases hr <;> exact ⟨_, rfl⟩

/-- Whoever executes `start` has entered it with its argument. -/
def Entered (w : World D) (l : List (Event D)) : Prop :=
  ∀ t callback q, w.api t = .start callback q → .entered t (.start callback) ∈ l

section
variable [DecidableEq D] [Double D]

theorem Entered.move (h : Entered w l) (hm : Moved config w w' l') : Entered w' (l ++ l') := by
  intro t' callback q hq
  cases hm with
  | tick | spurious => exact List.mem_append_left _ (h t' callback q hq)
  | run n c r hnext htake => exact List.mem_append_left _ (h t' callback q hq)
  | call t call hidle hmay =>
    rw [World.enter_api] at hq
    by_cases ht : t' = t
    · subst ht
      rw [Function.update_self] at hq
      cases call <;> cases hq
      exact List.mem_append_right _ (List.mem_singleton_self _)
    · rw [Function.update_of_ne ht] at hq
      exact List.mem_append_left _ (h t' callback q hq)
  | api t c r hnext htake =>
    rw [World.applyApi_api] at hq
    by_cases ht : t' = t
    · subst ht
      rw [Function.update_self] at hq
      obtain ⟨q', hp⟩ := apiNext_argument hnext hq
      exact List.mem_append_left _ (h t' callback q' hp)
    · rw [Function.update_of_ne ht] at hq
      exact List.mem_append_left _ (h t' callback q hq)

theorem Reachable.entered (h : Reachable config w l) : Entered w l :=
  h.induction (fun _ _ _ _ => (fun h => by cases h)) fun _ hi hm => hi.move hm

end

/-! ## The books of a client -/

/-- The given workers have `m` records in hand, as counted by `f`. -/
structure InHand (who : Nat → Bool) (f : RunPc D → Nat) (w : World D) (m : Nat) : Prop where
  executing : ∀ n, who n = true → w.executing n → f (w.workers n).pc = m
  none : (∀ n, who n = true → ¬ w.executing n) → m = 0

variable {who : Nat → Bool} {f : RunPc D → Nat} {m : Nat}

theorem InHand.same (h : InHand who f w m) (hworkers : w'.workers = w.workers) :
    InHand who f w' m := by
  have hexec : ∀ k, w'.executing k ↔ w.executing k := fun k => by
    rw [World.executing, World.executing, hworkers]
  refine ⟨fun k hk hrun => ?_, fun hnone => h.none fun k hk hrun => hnone k hk ((hexec k).mpr hrun)⟩
  rw [hworkers]
  exact h.executing k hk ((hexec k).mp hrun)

/-- Outside of `handle_record` nothing is in hand. -/
theorem InHand.rest (h : InHand who f w m) (hf : Counts f)
    (hout : ∀ n, (w.workers n).pc.inRecord = false) : m = 0 := by
  by_cases hexec : ∃ n, who n = true ∧ w.executing n
  · obtain ⟨n, hn, hrun⟩ := hexec
    rw [← h.executing n hn hrun]
    exact hf _ (hout n)
  · exact h.none fun n hn hrun => hexec ⟨n, hn, hrun⟩

theorem inHand_initial (who : Nat → Bool) (f : RunPc D → Nat) (clock : TimePoint) :
    InHand who f (World.initial clock) 0 := ⟨(fun _ _ hrun => by cases hrun), fun _ => rfl⟩

/-- A step of an entry point changes nothing in hand. -/
theorem InHand.api (h : InHand who f w m) (ho : Orderly w) (hf : Counts f) (config : Config D)
    {r : ApiNext D} (hspawn : r.spawn = true → ∀ n, ¬ w.executing n) :
    InHand who f (w.applyApi config t r) m := by
  cases hr : r.spawn with
  | false =>
    exact h.same (by simp [World.applyApi, hr])
  | true =>
    have hnone := hspawn hr
    obtain rfl := h.none fun k _ => hnone k
    refine ⟨fun k _ hrun => ?_, fun _ => rfl⟩
    rcases ho.applyApi_worker config t r k with hsame | ⟨-, htop⟩
    · rw [World.executing, hsame] at hrun
      exact absurd hrun (hnone k)
    · rw [htop]
      exact hf .top rfl

/-- A step of a worker changes what this worker has in hand. -/
theorem InHand.run (h : InHand who f w m) (ho : Orderly w) (hf : Counts f) {r : RunNext D}
    (hexec : w.executing n) :
    (who n = true → m = f (w.workers n).pc ∧ InHand who f (w.applyRun n r) (f r.worker.pc)) ∧
      (who n = false → InHand who f (w.applyRun n r) m) := by
  have hother : ∀ k, k ≠ n → ¬ (w.applyRun n r).executing k := fun k hk hrun => by
    rw [World.executing, World.applyRun_workers, Function.update_of_ne hk] at hrun
    exact hk (ho.executing_unique hexec hrun)
  refine ⟨fun hwho => ⟨(h.executing n hwho hexec).symm, fun k hk hrun => ?_, fun hnone => ?_⟩,
    fun hwho => ⟨fun k hk hrun => ?_, fun hnone => ?_⟩⟩
  · by_cases hkn : k = n
    · subst hkn
      rw [World.applyRun_workers, Function.update_self]
    · exact absurd hrun (hother k hkn)
  · have hstop := hnone n hwho
    rw [World.executing, World.applyRun_workers, Function.update_self] at hstop
    refine hf _ (eq_false_of_ne_true fun hin => hstop ?_)
    cases hpc : r.worker.pc <;> simp_all [RunPc.inRecord, RunPc.running]
  · have hkn : k ≠ n := fun hkn => by rw [hkn, hwho] at hk; cases hk
    exact absurd hrun (hother k hkn)
  · refine h.none fun k hk hrun => ?_
    have hkn := ho.executing_unique hexec hrun
    rw [hkn, hwho] at hk
    cases hk

/-- No worker executes when one is created. -/
theorem Orderly.none_executing (ho : Orderly w)
    (hrole : (w.api t).role = .quiet ∨ (w.api t).role = .cleared) (n : Nat) : ¬ w.executing n := by
  obtain ⟨hworker, hjoining⟩ := ho.life.resting t hrole
  exact ho.life.not_executing hworker hjoining n

theorem Orderly.spawn_none (ho : Orderly w) {r : ApiNext D}
    (hnext : apiNext w t c (w.api t) = some r) (hspawn : r.spawn = true) (n : Nat) :
    ¬ w.executing n := by
  rcases apiNext_callback hnext with ⟨-, hr⟩ | ⟨-, hr⟩ | ⟨callback, previous, hpc, -, -⟩
  · rw [hspawn] at hr; cases hr
  · rw [hspawn] at hr; cases hr
  · exact ho.none_executing (.inr (by rw [hpc]; rfl)) n

theorem entries_other [Double D] (kind : Entry)
    (h : ∀ e ∈ l', ∀ k, e.owner = some k → who k = false) :
    entries who kind (l ++ l') = entries who kind l := by
  have hzero : entries who kind l' = 0 := entries_zero fun e he entry hentry =>
    .inl (h e he entry.1 (owner_of_entry hentry))
  rw [entries_append, hzero]
  rfl

theorem entries_api [Double D] (kind : Entry) (h : ∀ e ∈ l', e.owner = none) :
    entries who kind (l ++ l') = entries who kind l :=
  entries_other kind fun e he k hk => by rw [h e he] at hk; cases hk

section
variable [DecidableEq D] [Double D]

/-- What one step does to the records in hand and the entries: it keeps both, or it is the step of
one of the workers. -/
theorem InHand.move (ho : Orderly w) (hm : Moved config w w' l') (who : Nat → Bool) :
    (∀ kind, entries who kind (l ++ l') = entries who kind l) ∧
      (∀ f m, Counts f → InHand who f w m → InHand who f w' m) ∧
      (∀ n, who n = true → (w'.workers n).pc = (w.workers n).pc ∨ (w'.workers n).pc = .top) ∨
    ∃ n p', who n = true ∧ w.executing n ∧ (w'.workers n).pc = p' ∧
      Books who w.impl.callback (w.workers n).pc p' l' ∧
      ∀ f m, Counts f → InHand who f w m → m = f (w.workers n).pc ∧ InHand who f w' (f p') := by
  cases hm with
  | tick | spurious =>
    exact .inl ⟨fun kind => entries_api kind (by simp), fun f m _ h => h.same rfl,
      fun _ _ => .inl rfl⟩
  | call t call hidle hmay =>
    refine .inl ⟨fun kind => entries_api kind fun e he => ?_, fun f m _ h => h.same rfl,
      fun _ _ => .inl rfl⟩
    rw [List.mem_singleton.mp he]
    rfl
  | api t c r hnext htake =>
    refine .inl ⟨fun kind => entries_api kind fun e he => owner_of_byApi (apiNext_events hnext e he),
      fun f m hf h => h.api ho hf config (ho.spawn_none hnext), fun n _ => ?_⟩
    exact (ho.applyApi_worker config t r n).imp (congrArg Worker.pc) And.right
  | run n c r hnext htake =>
    have hexec := executing_of_next hnext
    cases hwho : who n with
    | false =>
      refine .inl ⟨fun kind => entries_other kind fun e he k hk => ?_,
        fun f m hf h => (h.run ho hf hexec).2 hwho, fun k hk => .inl ?_⟩
      · rcases runNext_owner hnext e he with hnone | hn
        · rw [hnone] at hk; cases hk
        · rw [hn] at hk
          cases hk
          exact hwho
      · have hkn : k ≠ n := fun hkn => by rw [hkn, hwho] at hk; cases hk
        rw [World.applyRun_workers, Function.update_of_ne hkn]
    | true =>
      exact .inr ⟨n, r.worker.pc, hwho, hexec, by rw [World.applyRun_workers, Function.update_self],
        runNext_books hwho hnext, fun f m hf h => (h.run ho hf hexec).1 hwho⟩

/-- Every accepted record was delivered or ended in a callback error, or is in hand. -/
def Balanced (who : Nat → Bool) (w : World D) (l : List (Event D)) : Prop :=
  ∃ m, InHand who RunPc.pending w m ∧
    entries who .accepted l = entries who .delivered l + entries who .failed l + m

theorem Balanced.move (h : Balanced who w l) (ho : Orderly w) (hm : Moved config w w' l') :
    Balanced who w' (l ++ l') := by
  obtain ⟨m, hin, heq⟩ := h
  rcases InHand.move (l := l) ho hm who with ⟨hsame, hkeep, -⟩ | ⟨n, p', -, -, -, hbooks, hstep⟩
  · refine ⟨m, hkeep _ m counts_pending hin, ?_⟩
    rw [hsame, hsame, hsame]
    exact heq
  · obtain ⟨rfl, hin'⟩ := hstep _ m counts_pending hin
    have haccepted := hbooks.accepted
    refine ⟨_, hin', ?_⟩
    rw [entries_append, entries_append, entries_append]
    omega

theorem Reachable.balanced (h : Reachable config w l) (who : Nat → Bool) : Balanced who w l :=
  h.induction (I := fun v k => Balanced who v k)
    (fun clock => ⟨0, inHand_initial who _ clock, rfl⟩) fun hv hi hm => hi.move hv.orderly hm

/-- The callback that worker `n` was created with, and what became of it. -/
structure CallbackOf (w : World D) (l : List (Event D)) (n : Nat) (callback : Option Nat) : Prop where
  current : w.executing n → w.impl.callback = callback
  entered : n < w.created → ∃ t, .entered t (.start callback) ∈ l
  nonempty : callback ≠ none → ∃ m, InHand (· = n) RunPc.called w m ∧
    entries (· = n) .invoked l + entries (· = n) .copyFailed l =
      entries (· = n) .delivered l + entries (· = n) .failed l + m
  empty : callback = none → (w.workers n).pc.calling = false ∧ entries (· = n) .invoked l = 0 ∧
    entries (· = n) .copyFailed l = 0 ∧ entries (· = n) .failed l = 0

theorem CallbackOf.move {callback : Option Nat} (h : CallbackOf w l n callback) (ho : Orderly w)
    (hborn : n < w.created) (hm : Moved config w w' l') : CallbackOf w' (l ++ l') n callback := by
  have hentered : n < w'.created → ∃ t, .entered t (.start callback) ∈ l ++ l' := fun _ => by
    obtain ⟨t, ht⟩ := h.entered hborn
    exact ⟨t, List.mem_append_left _ ht⟩
  have hcurrent : w'.executing n → w'.impl.callback = callback := fun hrun => by
    cases hm with
    | tick | spurious | call => exact h.current hrun
    | api t c r hnext htake =>
      have hwas : w.executing n := by
        rwa [World.executing, applyApi_workers_ne (Nat.ne_of_lt hborn)] at hrun
      rcases apiNext_callback hnext with ⟨hsame, -⟩ | ⟨hrole, -⟩ | ⟨_, _, hpc, -, -⟩
      · exact hsame.trans (h.current hwas)
      · exact absurd hwas (ho.none_executing hrole n)
      · exact absurd hwas (ho.none_executing (.inr (by rw [hpc]; rfl)) n)
    | run k c r hnext htake =>
      have hexec := executing_of_next hnext
      have hwas : w.executing n := by
        by_cases hk : n = k
        · exact hk ▸ hexec
        · rwa [World.executing, World.applyRun_workers, Function.update_of_ne hk] at hrun
      exact (runNext_control hnext).callback.trans (h.current hwas)
  rcases InHand.move (l := l) ho hm (· = n) with
    ⟨hsame, hkeep, hpc⟩ | ⟨k, p', hk, hexec, hp', hbooks, hstep⟩
  · refine ⟨hcurrent, hentered, fun hne => ?_, fun heq => ?_⟩
    · obtain ⟨m, hin, hsum⟩ := h.nonempty hne
      refine ⟨m, hkeep _ m counts_called hin, ?_⟩
      rw [hsame, hsame, hsame, hsame]
      exact hsum
    · rw [hsame, hsame, hsame]
      refine ⟨?_, (h.empty heq).2⟩
      rcases hpc n (decide_eq_true rfl) with hpc | hpc <;> rw [hpc]
      · exact (h.empty heq).1
      · rfl
  · obtain rfl : k = n := by simpa using hk
    refine ⟨hcurrent, hentered, fun hne => ?_, fun heq => ?_⟩
    · obtain ⟨m, hin, hsum⟩ := h.nonempty hne
      obtain ⟨rfl, hin'⟩ := hstep _ m counts_called hin
      have hinvoked := hbooks.invoked (by rw [h.current hexec]; exact hne)
      refine ⟨_, hin', ?_⟩
      simp only [entries_append]
      omega
    · obtain ⟨hcalling, hinvoked, hcopy, hfailed⟩ := h.empty heq
      obtain ⟨h₁, h₂, h₃, h₄⟩ := hbooks.empty (by rw [h.current hexec]; exact heq) hcalling
      simp only [entries_append]
      exact ⟨hp' ▸ h₄, by omega, by omega, by omega⟩

/-- An event of a session is about a worker that was created. -/
def Owned (w : World D) (l : List (Event D)) : Prop :=
  ∀ e ∈ l, ∀ n, e.owner = some n → n < w.created

theorem Reachable.owned (h : Reachable config w l) : Owned w l := by
  refine h.induction (I := fun v k => Owned v k) (fun _ => by simp [Owned]) ?_
  intro v v' k k' hv hi hm e he n hn
  rcases List.mem_append.mp he with he | he
  · have hlt := hi e he n hn
    cases hm with
    | api t c r hnext htake => exact Nat.lt_of_lt_of_le hlt (created_le_applyApi v config t r)
    | _ => exact hlt
  · cases hm with
    | tick | spurious => cases he
    | call t call hidle hmay => rw [List.mem_singleton.mp he] at hn; cases hn
    | api t c r hnext htake =>
      rw [owner_of_byApi (apiNext_events hnext e he)] at hn
      cases hn
    | run i c r hnext htake =>
      have hlast := hv.orderly.life.last_of_executing (executing_of_next hnext)
      rcases runNext_owner hnext e he with hnone | hsome
      · rw [hnone] at hn; cases hn
      · rw [hsome] at hn
        cases hn
        rw [World.applyRun_created]
        omega

/-- A worker that is being created. -/
theorem CallbackOf.create {callback : Option Nat} {previous : Impl.Previous D} {r : ApiNext D}
    (h : Reachable config w l) (hnext : apiNext w t c (w.api t) = some r)
    (hpc : w.api t = .start callback (.create previous)) (hcallback : r.impl.callback = callback)
    (hspawn : r.spawn = true) :
    CallbackOf (w.applyApi config t r) (l ++ r.events) w.created callback := by
  have htop : ((w.applyApi config t r).workers w.created).pc = .top := by
    simp [World.applyApi, hspawn]
  have hzero : ∀ kind, entries (· = w.created) kind (l ++ r.events) = 0 := fun kind => by
    rw [entries_api kind fun e he => owner_of_byApi (apiNext_events hnext e he)]
    refine entries_zero fun e he entry hentry => ?_
    have hlt := h.owned e he entry.1 (owner_of_entry hentry)
    exact .inl (decide_eq_false (Nat.ne_of_lt hlt))
  refine ⟨fun _ => hcallback, fun _ => ?_, fun _ => ⟨0, ?_, ?_⟩, fun _ => ?_⟩
  · exact ⟨t, List.mem_append_left _ (h.entered t callback _ hpc)⟩
  · refine ⟨fun k hk _ => ?_, fun _ => rfl⟩
    rw [of_decide_eq_true hk, htop]
    rfl
  · rw [hzero, hzero, hzero, hzero]
  · rw [htop]
    exact ⟨rfl, hzero _, hzero _, hzero _⟩

/-- The callbacks that the workers were created with. -/
theorem Reachable.callbacks (h : Reachable config w l) :
    ∃ callbackOf : Nat → Option Nat, ∀ n < w.created, CallbackOf w l n (callbackOf n) := by
  refine h.induction (I := fun v k => ∃ callbackOf : Nat → Option Nat,
    ∀ n < v.created, CallbackOf v k n (callbackOf n))
    (fun _ => ⟨fun _ => none, fun _ h => by cases h⟩) ?_
  rintro v v' k k' hv ⟨callbackOf, hi⟩ hm
  have hkeep : v'.created = v.created → ∃ callbackOf : Nat → Option Nat,
      ∀ n < v'.created, CallbackOf v' (k ++ k') n (callbackOf n) := fun hsame =>
    ⟨callbackOf, fun n hn => (hi n (hsame ▸ hn)).move hv.orderly (hsame ▸ hn) hm⟩
  cases hm with
  | tick | spurious | call | run => exact hkeep rfl
  | api t c r hnext htake =>
    cases hspawn : r.spawn with
    | false => exact hkeep (by simp [World.applyApi, hspawn])
    | true =>
      rcases apiNext_callback hnext with ⟨-, hr⟩ | ⟨-, hr⟩ | ⟨callback, previous, hpc, hcallback, -⟩
      · rw [hspawn] at hr; cases hr
      · rw [hspawn] at hr; cases hr
      refine ⟨Function.update callbackOf v.created callback, fun n hn => ?_⟩
      have hlt : n < v.created + 1 := by simpa [World.applyApi, hspawn] using hn
      by_cases hn' : n = v.created
      · subst hn'
        rw [Function.update_self]
        exact .create hv hnext hpc hcallback hspawn
      · rw [Function.update_of_ne hn']
        have hborn : n < v.created := by omega
        exact (hi n hborn).move hv.orderly hborn (.api t c r hnext htake)

/-! ## The counters -/

theorem Reachable.sorted (h : Reachable config w l) : ∀ x ∈ records l, x.Sorted config := by
  refine h.induction (I := fun _ k => ∀ x ∈ records k, x.Sorted config) (fun _ => by simp [records]) ?_
  intro v v' k k' hv hi hm x hx
  rw [records_append] at hx
  rcases List.mem_append.mp hx with hx | hx
  · exact hi x hx
  · obtain ⟨e, he, hrecord⟩ := List.mem_filterMap.mp hx
    cases e with
    | processed n y =>
      cases hrecord
      cases hm with
      | tick | spurious | call => simp at he
      | api t c r hnext htake => cases owner_of_byApi (apiNext_events hnext _ he)
      | run n c r hnext htake => exact processed_sorted hnext he
    | _ => cases hrecord

end

theorem entries_accepted [Double D] (l : List (Event D)) :
    entries (fun _ => true) .accepted l = (records l).countP (·.accepted) := by
  rw [records, List.countP_filterMap, entries]
  congr 1
  funext e
  cases e with
  | processed n x => cases h : x.accepted <;> simp [Event.entry, Event.record, h]
  | _ => simp [Event.entry, Event.record]

/-- The positions of a worker at which it writes to the lifetime data. -/
def RunPc.writesLifetime : RunPc D → Bool
  | .session (.record (.account ..)) | .session (.record (.callbackFailed ..))
  | .session (.record (.commitData ..)) | .session (.apply _) | .session .timedOut
  | .session .malformed | .enterBackoff _ => true
  | _ => false

/-- The counters that last for the life of the client. -/
inductive Counter
  | received | delivered | rateLimited | deviceError | warning | lost | duplicate | outOfOrder
  | malformed | reconnect | timeout | callbackError | ftStall | ftBackward | ftRestart
  | calibrationChange
  deriving DecidableEq, Repr

def Counter.of (h : HealthSnapshot D) : Counter → Nat
  | .received => h.receivedCount
  | .delivered => h.deliveredCount
  | .rateLimited => h.rateLimitedCount
  | .deviceError => h.deviceErrorCount
  | .warning => h.warningCount
  | .lost => h.lostCount
  | .duplicate => h.duplicateCount
  | .outOfOrder => h.outOfOrderCount
  | .malformed => h.malformedCount
  | .reconnect => h.reconnectCount
  | .timeout => h.timeoutCount
  | .callbackError => h.callbackErrorCount
  | .ftStall => h.ftStallCount
  | .ftBackward => h.ftBackwardCount
  | .ftRestart => h.ftRestartCount
  | .calibrationChange => h.calibrationChangeCount

theorem Counter.of_lifetime {h h' : HealthSnapshot D} (hlife : lifetime h = lifetime h')
    (counter : Counter) : counter.of h = counter.of h' := by
  have hsame : counter.of (lifetime h) = counter.of (lifetime h') := by rw [hlife]
  cases counter <;> exact hsame

theorem accounted_counters (config : Config D) (i : Impl D) (record : RawRecord)
    (receivedAt : TimePoint) (rdt : SequenceObservation) (ft : FtSequenceKind) (counter : Counter) :
    counter.of i.health ≤ counter.of (i.accounted config record receivedAt rdt ft).health := by
  cases counter <;> simp only [Counter.of, Impl.accounted, Impl.countRecord] <;>
    (try split) <;> omega

theorem applyConfiguration_counters [DecidableEq D] {i : Impl D} (configuration : SensorConfiguration D)
    (counter : Counter) :
    counter.of i.health ≤ counter.of (i.applyConfiguration configuration).health := by
  unfold Impl.applyConfiguration
  split
  · split
    · cases counter <;> exact Nat.le_refl _
    · cases counter <;> first | exact Nat.le_refl _ | exact Nat.le_succ _
  · cases counter <;> exact Nat.le_refl _

section
variable [DecidableEq D] [Double D]

theorem runNext_lifetime {p : RunPc D} (hnext : runNext config w n c worker p = some r)
    (hp : p.writesLifetime = false) : lifetime r.impl.health = lifetime w.impl.health := by
  cases p with
  | session q =>
    cases q with
    | record q =>
      cases q with
      | account | callbackFailed | commitData => cases hp
      | _ =>
        simp only [runNext, sessionNext, recordNext] at hnext
        (repeat' split at hnext) <;> cases hnext <;> first | rfl | (rw [afterRecord_impl]; rfl)
    | apply | timedOut | malformed => cases hp
    | _ =>
      simp only [runNext, sessionNext] at hnext
      (repeat' split at hnext) <;> cases hnext <;> rfl
  | enterBackoff message => cases hp
  | publish code message => cases hnext; exact publish_lifetime ..
  | _ =>
    simp only [runNext] at hnext
    (repeat' split at hnext) <;> cases hnext <;> rfl

/-- No counter decreases. -/
theorem runNext_counters {p : RunPc D} (hnext : runNext config w n c worker p = some r)
    (counter : Counter) : counter.of w.impl.health ≤ counter.of r.impl.health := by
  cases hp : p.writesLifetime with
  | false => exact Nat.le_of_eq (Counter.of_lifetime (runNext_lifetime hnext hp) counter).symm
  | true =>
    cases p with
    | session q =>
      cases q with
      | record q =>
        cases q with
        | account record receivedAt rdt ft =>
          simp only [runNext, sessionNext, recordNext] at hnext
          split at hnext
          · cases hnext; exact Nat.le_refl _
          · obtain ⟨-, rfl, -⟩ := account_some ‹_›
            have hle := accounted_counters config w.impl record receivedAt rdt ft counter
            split at hnext <;> cases hnext
            · rw [afterRecord_impl]; exact hle
            · exact hle
        | callbackFailed message outcome =>
          cases hnext
          rw [afterRecord_impl]
          cases counter <;> first | exact Nat.le_refl _ | exact Nat.le_succ _
        | commitData sample outcome =>
          cases hnext
          cases counter <;> first | exact Nat.le_refl _ | exact Nat.le_succ _
        | _ => cases hp
      | apply configuration => cases hnext; exact applyConfiguration_counters configuration counter
      | timedOut | malformed =>
        simp only [runNext, sessionNext] at hnext
        split at hnext <;> cases hnext <;> cases counter <;>
          first | exact Nat.le_refl _ | exact Nat.le_succ _
      | _ => cases hp
    | enterBackoff message =>
      cases hnext
      cases counter <;> first | exact Nat.le_refl _ | exact Nat.le_succ _
    | _ => cases hp

theorem Reachable.counters_step (h : Reachable config w l) (hm : Moved config w w' l')
    (counter : Counter) : counter.of w.impl.health ≤ counter.of w'.impl.health := by
  cases hm with
  | tick | spurious | call => exact Nat.le_refl _
  | api t c r hnext htake =>
    have hsame := (apiNext_lifetime hnext (h.savedLifetime t)).1
    exact Nat.le_of_eq (Counter.of_lifetime hsame counter).symm
  | run n c r hnext htake => exact runNext_counters hnext counter

theorem Reachable.counters_run (h : Reachable config w l) (hrun : (machine config).Run w l' w')
    (counter : Counter) : counter.of w.impl.health ≤ counter.of w'.impl.health := by
  refine hrun.invariant (I := fun v _ => counter.of w.impl.health ≤ counter.of v.impl.health)
    (Nat.le_refl _) ?_
  intro v k a v' k' hv hi hstep
  exact Nat.le_trans hi ((h.run hv).counters_step (moved_of_step hstep) counter)

/-- Samples are delivered, and callback errors recorded, at two positions. -/
theorem entry_at {p : RunPc D} (hnext : runNext config w n c worker p = some r) {e : Event D}
    (he : e ∈ r.events) {kind : Entry} (hentry : e.entry = some (k, kind))
    (hkind : kind = .delivered ∨ kind = .failed) : p.writesLifetime = true := by
  have hat := runNext_reportedAt hnext e he
  cases e with
  | processed i x =>
    simp only [Event.entry] at hentry
    split at hentry <;> cases hentry
    simp at hkind
  | copyFailed | invoked => cases hentry; simp at hkind
  | callbackError =>
    obtain ⟨_, _, hpc⟩ := hat
    rw [hpc]
    rfl
  | delivered =>
    obtain ⟨_, hpc⟩ := hat
    rw [hpc]
    rfl
  | _ => cases hentry

end

/-- The two counters of what became of the accepted records. -/
structure CountedEntries [Double D] (i i' : Impl D) (events : List (Event D)) : Prop where
  delivered : i'.health.deliveredCount =
    i.health.deliveredCount + entries (fun _ => true) .delivered events
  failed : i'.health.callbackErrorCount =
    i.health.callbackErrorCount + entries (fun _ => true) .failed events

theorem CountedEntries.of_lifetime [Double D] {i i' : Impl D} {events : List (Event D)}
    (hlife : lifetime i'.health = lifetime i.health)
    (hevents : ∀ e ∈ events, ∀ k kind, e.entry = some (k, kind) →
      ¬ (kind = .delivered ∨ kind = .failed)) : CountedEntries i i' events := by
  have hdelivered : entries (fun _ => true) .delivered events = 0 :=
    entries_zero fun e he entry hentry => .inr fun hkind =>
      hevents e he entry.1 entry.2 hentry (.inl hkind)
  have hfailed : entries (fun _ => true) .failed events = 0 :=
    entries_zero fun e he entry hentry => .inr fun hkind =>
      hevents e he entry.1 entry.2 hentry (.inr hkind)
  constructor
  · rw [hdelivered]
    exact Counter.of_lifetime hlife .delivered
  · rw [hfailed]
    exact Counter.of_lifetime hlife .callbackError

section
variable [DecidableEq D] [Double D]

theorem runNext_countedEntries {p : RunPc D} (hnext : runNext config w n c worker p = some r) :
    CountedEntries w.impl r.impl r.events := by
  cases hp : p.writesLifetime with
  | false =>
    refine .of_lifetime (runNext_lifetime hnext hp) fun e he k kind hentry hkind => ?_
    rw [entry_at hnext he hentry hkind] at hp
    cases hp
  | true =>
    cases p with
    | session q =>
      cases q with
      | record q =>
        cases q with
        | account record receivedAt rdt ft =>
          simp only [runNext, sessionNext, recordNext] at hnext
          split at hnext
          · cases hnext; exact ⟨rfl, rfl⟩
          · obtain ⟨-, rfl, -⟩ := account_some ‹_›
            split at hnext <;> cases hnext
            · refine ⟨?_, ?_⟩ <;> rw [afterRecord_impl, afterRecord_entries, entries_processed rfl] <;>
                simp [Impl.accounted, Impl.countRecord]
            · refine ⟨?_, ?_⟩ <;> rw [entries_processed rfl] <;>
                simp [Impl.accounted, Impl.countRecord]
        | callbackFailed message outcome =>
          cases hnext
          refine ⟨?_, ?_⟩ <;> rw [afterRecord_impl, afterRecord_entries] <;>
            simp [Impl.recordCallbackError, entries, Event.entry]
        | commitData sample outcome =>
          cases hnext
          refine ⟨?_, ?_⟩ <;> simp [Impl.commitDelivery, entries, Event.entry]
        | _ => cases hp
      | apply configuration =>
        cases hnext
        refine ⟨?_, ?_⟩ <;> simp only [Impl.applyConfiguration] <;> split <;> (try split) <;> rfl
      | timedOut | malformed =>
        simp only [runNext, sessionNext] at hnext
        split at hnext <;> cases hnext <;> exact ⟨rfl, rfl⟩
      | _ => cases hp
    | enterBackoff message => cases hnext; exact ⟨rfl, rfl⟩
    | _ => cases hp

/-- The counters are the numbers of the entries. -/
theorem Reachable.counted (h : Reachable config w l) :
    w.impl.health.deliveredCount = entries (fun _ => true) .delivered l ∧
      w.impl.health.callbackErrorCount = entries (fun _ => true) .failed l := by
  refine h.induction (I := fun v k =>
    v.impl.health.deliveredCount = entries (fun _ => true) .delivered k ∧
      v.impl.health.callbackErrorCount = entries (fun _ => true) .failed k) (fun _ => ⟨rfl, rfl⟩) ?_
  rintro v v' k k' hv ⟨hdelivered, hfailed⟩ hm
  have hcounted : CountedEntries v.impl v'.impl k' := by
    cases hm with
    | tick | spurious => exact ⟨rfl, rfl⟩
    | call => exact ⟨rfl, rfl⟩
    | api t c r hnext htake =>
      refine .of_lifetime (apiNext_lifetime hnext (hv.savedLifetime t)).1 fun e he k kind hentry => ?_
      have howner := owner_of_entry hentry
      rw [owner_of_byApi (apiNext_events hnext e he)] at howner
      cases howner
    | run n c r hnext htake => exact runNext_countedEntries hnext
  rw [entries_append, entries_append, ← hdelivered, ← hfailed]
  exact ⟨hcounted.delivered, hcounted.failed⟩

end

/-! ## The whole client -/

/-- The entries of all workers, worker by worker. -/
theorem entries_sum [Double D] {N : Nat} (kind : Entry) (who : Nat → Bool)
    (h : ∀ e ∈ l, ∀ k, e.owner = some k → k < N) :
    entries who kind l =
      ∑ n ∈ Finset.range N, if who n then entries (· = n) kind l else 0 := by
  induction l with
  | nil => simp [entries]
  | cons e l ih =>
    have hl := ih fun e' he' => h e' (List.mem_cons_of_mem _ he')
    have hone : entries who kind [e] =
        ∑ n ∈ Finset.range N, if who n then entries (· = n) kind [e] else 0 := by
      cases hentry : e.entry with
      | none => simp [entries, hentry]
      | some entry =>
        have hlt := h e List.mem_cons_self entry.1 (owner_of_entry hentry)
        rw [Finset.sum_eq_single entry.1]
        · cases hwho : who entry.1 <;> simp [entries, hentry, hwho]
        · intro n _ hn
          simp [entries, hentry, Ne.symm hn]
        · intro hnot
          exact absurd (Finset.mem_range.mpr hlt) hnot
    rw [← List.singleton_append, entries_append, hone, hl, ← Finset.sum_add_distrib]
    refine Finset.sum_congr rfl fun n _ => ?_
    rw [entries_append]
    split <;> rfl

/-- What became of the records of one run, outside of `handle_record`. -/
theorem CallbackOf.rest [Double D] {callback : Option Nat} (h : CallbackOf w l n callback)
    (hout : ∀ n, (w.workers n).pc.inRecord = false) :
    entries (· = n) .invoked l + entries (· = n) .copyFailed l +
        (if callback = none then entries (· = n) .delivered l else 0) =
      entries (· = n) .delivered l + entries (· = n) .failed l := by
  by_cases hcallback : callback = none
  · obtain ⟨-, hinvoked, hcopy, hfailed⟩ := h.empty hcallback
    rw [if_pos hcallback, hinvoked, hcopy, hfailed]
    omega
  · obtain ⟨m, hin, hsum⟩ := h.nonempty hcallback
    rw [if_neg hcallback, hsum, hin.rest counts_called hout, Nat.add_zero]

section
variable [DecidableEq D] [Double D]

theorem Reachable.invocations (h : Reachable config w l)
    (hout : ∀ n, (w.workers n).pc.inRecord = false) {callbackOf : Nat → Option Nat}
    (hof : ∀ n < w.created, CallbackOf w l n (callbackOf n)) :
    entries (fun _ => true) .invoked l + entries (fun _ => true) .copyFailed l +
        entries (fun n => callbackOf n = none) .delivered l =
      entries (fun _ => true) .delivered l + entries (fun _ => true) .failed l := by
  rw [entries_sum .invoked (fun _ => true) h.owned, entries_sum .copyFailed (fun _ => true) h.owned,
    entries_sum .delivered (fun n => callbackOf n = none) h.owned,
    entries_sum .delivered (fun _ => true) h.owned, entries_sum .failed (fun _ => true) h.owned]
  simp only [if_true, ← Finset.sum_add_distrib]
  refine Finset.sum_congr rfl fun n hn => ?_
  simp only [decide_eq_true_eq]
  exact (hof n (Finset.mem_range.mp hn)).rest hout

/-- Whenever no worker is in `handle_record`, every record that was received is accounted for once:
it was delivered, or rate limited, or ended in a callback error, or was suppressed; and the other
counters of records are the sums over all records. A non-empty callback was invoked for every
delivered record and every callback error, except where it could not be copied and except for the
records that were delivered in runs with an empty callback. No counter ever decreases. -/
theorem records_accounted (h : Reachable config w l)
    (hout : ∀ n, (w.workers n).pc.inRecord = false) :
    w.impl.health.receivedCount = w.impl.health.deliveredCount +
      w.impl.health.rateLimitedCount + w.impl.health.callbackErrorCount +
        (records l).countP (·.suppressed config) ∧
    tally w.impl.health = Tally.of (records l) ∧
    (∃ callbackOf : Nat → Option Nat,
      (∀ n < w.created, ∃ t, .entered t (.start (callbackOf n)) ∈ l) ∧
      (∀ n, w.executing n → w.impl.callback = callbackOf n) ∧
      entries (fun _ => true) .invoked l + entries (fun _ => true) .copyFailed l +
          entries (fun n => callbackOf n = none) .delivered l =
        w.impl.health.deliveredCount + w.impl.health.callbackErrorCount ∧
      ∀ n, callbackOf n = none → entries (· = n) .invoked l = 0) ∧
    ∀ w' l', (machine config).Run w l' w' →
      ∀ counter : Counter, counter.of w.impl.health ≤ counter.of w'.impl.health := by
  obtain ⟨hdelivered, hfailed⟩ := h.counted
  refine ⟨?_, h.tally, ?_, fun w' l' hrun counter => h.counters_run hrun counter⟩
  · obtain ⟨m, hin, hbalance⟩ := h.balanced fun _ => true
    have hm := hin.rest counts_pending hout
    have hsum := Sorted.sum h.sorted
    have hreceived : w.impl.health.receivedCount = (records l).length :=
      congrArg Tally.received h.tally
    have hlimited : w.impl.health.rateLimitedCount = (records l).countP (·.rateLimited) :=
      congrArg Tally.rateLimited h.tally
    rw [← entries_accepted, hbalance, hm] at hsum
    omega
  · obtain ⟨callbackOf, hof⟩ := h.callbacks
    refine ⟨callbackOf, fun n hn => (hof n hn).entered hn, fun n hrun => ?_, ?_, fun n hnone => ?_⟩
    · have hlast := h.orderly.life.last_of_executing hrun
      exact (hof n (by omega)).current hrun
    · rw [hdelivered, hfailed]
      exact h.invocations hout hof
    · by_cases hn : n < w.created
      · exact ((hof n hn).empty hnone).2.1
      · refine entries_zero fun e he entry hentry => .inl ?_
        have hlt := h.owned e he entry.1 (owner_of_entry hentry)
        exact decide_eq_false fun heq => hn (heq ▸ hlt)

end

/-- A client that was started with the given callback and has received a record. -/
def servedClient (callback : Option Nat) : World Rat × List (Event Rat) :=
  (machine (demoConfig .failStop)).perform (World.initial 1)
    (.call (.client 0) (.start callback) :: (startActions (.client 0)).tail ++ openActions 0 ++
      receiveActions 0 (List.replicate 36 0))

theorem records_accounted_servedClient :
    (servedClient (some 0)).1.impl.health.receivedCount = 1 ∧
      (servedClient (some 0)).1.impl.health.receivedCount =
        (servedClient (some 0)).1.impl.health.deliveredCount +
          (servedClient (some 0)).1.impl.health.rateLimitedCount +
          (servedClient (some 0)).1.impl.health.callbackErrorCount +
          (records (servedClient (some 0)).2).countP (·.suppressed (demoConfig .failStop)) := by
  have h : Reachable (demoConfig .failStop) (servedClient (some 0)).1 (servedClient (some 0)).2 :=
    ⟨1, Machine.run_perform (by decide +kernel)⟩
  have hout : ∀ n, ((servedClient (some 0)).1.workers n).pc.inRecord = false := by
    intro n
    cases n with
    | zero => decide +kernel
    | succ n =>
      have hcreated : (servedClient (some 0)).1.created = 1 := by decide +kernel
      rw [h.orderly.nested.unborn (n + 1) (by omega)]
      rfl
  exact ⟨by decide +kernel, (records_accounted h hout).1⟩

/-- An empty callback is not invoked for a sample that is delivered. -/
theorem empty_callback_not_invoked :
    ∃ w l, Reachable (demoConfig .failStop) w l ∧ (w.workers 0).pc.inRecord = false ∧
      w.created = 1 ∧ w.impl.health.deliveredCount = 1 ∧ w.impl.health.callbackErrorCount = 0 ∧
      (∀ n sample, .invoked n sample ∉ l) ∧ ∀ n, .copyFailed n ∉ l := by
  have hcount : entries (fun _ => true) .invoked (servedClient none).2 = 0 ∧
      entries (fun _ => true) .copyFailed (servedClient none).2 = 0 := by decide +kernel
  refine ⟨(servedClient none).1, (servedClient none).2, ⟨1, Machine.run_perform ?_⟩, ?_, ?_, ?_, ?_,
    fun n sample he => ?_, fun n he => ?_⟩
  · decide +kernel
  · decide +kernel
  · decide +kernel
  · decide +kernel
  · decide +kernel
  · exact List.countP_eq_zero.mp hcount.1 _ he rfl
  · exact List.countP_eq_zero.mp hcount.2 _ he rfl

end NetFT.Client
