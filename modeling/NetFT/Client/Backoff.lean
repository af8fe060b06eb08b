import Mathlib.Algebra.Order.Field.Rat
import Mathlib.Algebra.Order.Ring.Pow
import NetFT.Client.Timeout
import NetFT.Validate

/-! The delays between the sessions of a run. The history tells which sessions of a worker received
a valid record; a ghost beside the client collects the delays it enters. The delays are those of
`delays`, which repeats the loop of `run`, and have a closed form. Between two sessions there is
exactly one, and it is waited; where its end is out of the range of the steady clock, the run ends
with a fault instead. -/

namespace NetFT.Client
open Detail Library

variable {D : Type}

/-! ## The law -/

/-- The delay after a session, from the value that `backoff` has in it. -/
def delayAfter (config : Config D) (backoff : Rat) (valid : Bool) : Rat :=
  if valid then config.reconnectInitialDelay else backoff

/-- The delays after the sessions of a run, from the value that `backoff` has in the first. -/
def delays (config : Config D) (backoff : Rat) : List Bool → List Rat
  | [] => []
  | valid :: sessions =>
    let delay := delayAfter config backoff valid
    delay :: delays config (min (delay * 2) config.reconnectMaxDelay) sessions

/-- The value of `backoff` after the delays of the sessions. -/
def backoffAfter (config : Config D) (backoff : Rat) : List Bool → Rat
  | [] => backoff
  | valid :: sessions =>
    backoffAfter config (min (delayAfter config backoff valid * 2) config.reconnectMaxDelay) sessions

theorem backoffAfter_concat (config : Config D) (backoff : Rat) (sessions : List Bool)
    (valid : Bool) :
    backoffAfter config backoff (sessions ++ [valid]) =
      min (delayAfter config (backoffAfter config backoff sessions) valid * 2)
        config.reconnectMaxDelay := by
  induction sessions generalizing backoff with
  | nil => rfl
  | cons v sessions ih => exact ih _

theorem delays_concat (config : Config D) (backoff : Rat) (sessions : List Bool) (valid : Bool) :
    delays config backoff (sessions ++ [valid]) =
      delays config backoff sessions ++
        [delayAfter config (backoffAfter config backoff sessions) valid] := by
  induction sessions generalizing backoff with
  | nil => rfl
  | cons v sessions ih => simp [delays, backoffAfter, ih]

theorem delays_before_concat (config : Config D) (b : Rat) (before : List Bool) (valid : Bool) :
    delays config b before <+: delays config b (before ++ [valid]) := by
  rw [delays_concat]
  exact List.prefix_append ..

theorem length_delays (config : Config D) (backoff : Rat) (sessions : List Bool) :
    (delays config backoff sessions).length = sessions.length := by
  induction sessions generalizing backoff with
  | nil => rfl
  | cons v sessions ih => simp [delays, ih]

theorem capped_initial {config : Config D}
    (hle : config.reconnectInitialDelay ≤ config.reconnectMaxDelay) :
    min (config.reconnectInitialDelay * 2 ^ 0) config.reconnectMaxDelay =
      config.reconnectInitialDelay := by
  rw [pow_zero, mul_one, min_eq_left hle]

theorem delayAfter_bounds {config : Config D} {backoff : Rat}
    (hle : config.reconnectInitialDelay ≤ config.reconnectMaxDelay)
    (hmin : config.reconnectInitialDelay ≤ backoff) (hmax : backoff ≤ config.reconnectMaxDelay)
    (valid : Bool) :
    config.reconnectInitialDelay ≤ delayAfter config backoff valid ∧
      delayAfter config backoff valid ≤ config.reconnectMaxDelay := by
  cases valid with
  | true => exact ⟨le_refl _, hle⟩
  | false => exact ⟨hmin, hmax⟩

section
variable {config : Config D} (hpos : 0 < config.reconnectInitialDelay)
  (hle : config.reconnectInitialDelay ≤ config.reconnectMaxDelay)
include hpos hle

theorem double_capped (a : Nat) :
    min (min (config.reconnectInitialDelay * 2 ^ a) config.reconnectMaxDelay * 2)
        config.reconnectMaxDelay =
      min (config.reconnectInitialDelay * 2 ^ (a + 1)) config.reconnectMaxDelay := by
  have hmax : config.reconnectMaxDelay ≤ config.reconnectMaxDelay * 2 := by linarith
  rw [min_mul_of_nonneg _ _ (by norm_num : (0 : Rat) ≤ 2), min_assoc, min_eq_right hmax, mul_assoc,
    ← pow_succ]

/-- The delay after session `j` doubles with each session since the last one, `m`, that received a
valid record, and with each session if none did. -/
theorem delays_law {sessions : List Bool} {a j : Nat} {delay : Rat}
    (h : (delays config (min (config.reconnectInitialDelay * 2 ^ a) config.reconnectMaxDelay)
      sessions)[j]? = some delay) :
    (∀ m ≤ j, sessions[m]? = some true → (∀ i, m < i → i ≤ j → sessions[i]? = some false) →
      delay = min (config.reconnectInitialDelay * 2 ^ (j - m)) config.reconnectMaxDelay) ∧
    ((∀ i ≤ j, sessions[i]? = some false) →
      delay = min (config.reconnectInitialDelay * 2 ^ (a + j)) config.reconnectMaxDelay) := by
  induction sessions generalizing a j with
  | nil => cases h
  | cons valid sessions ih =>
    cases j with
    | zero =>
      cases h
      refine ⟨fun m hm hvalid _ => ?_, fun hfalse => ?_⟩
      · cases Nat.le_zero.mp hm
        cases hvalid
        exact (capped_initial hle).symm
      · cases hfalse 0 (Nat.le_refl _)
        rfl
    | succ j =>
      have hnext : ∃ b, (valid = true → b = 0) ∧ (valid = false → b = a) ∧
          delayAfter config (min (config.reconnectInitialDelay * 2 ^ a) config.reconnectMaxDelay)
            valid = min (config.reconnectInitialDelay * 2 ^ b) config.reconnectMaxDelay := by
        cases valid with
        | true => exact ⟨0, fun _ => rfl, (fun h => by cases h), (capped_initial hle).symm⟩
        | false => exact ⟨a, (fun h => by cases h), fun _ => rfl, rfl⟩
      obtain ⟨b, htrue, hfalse, hdelay⟩ := hnext
      simp only [delays, hdelay, double_capped hpos hle, List.getElem?_cons_succ] at h
      obtain ⟨ihvalid, ihnone⟩ := ih h
      refine ⟨fun m hm hvalid hlast => ?_, fun hnone => ?_⟩
      · cases m with
        | zero =>
          cases htrue (Option.some.inj hvalid)
          have hrest : ∀ i ≤ j, sessions[i]? = some false := fun i hi =>
            hlast (i + 1) (Nat.succ_pos i) (Nat.succ_le_succ hi)
          rw [ihnone hrest, Nat.sub_zero, Nat.zero_add, Nat.add_comm]
        | succ m =>
          rw [Nat.succ_sub_succ]
          exact ihvalid m (Nat.le_of_succ_le_succ hm) hvalid fun i hi hij =>
            hlast (i + 1) (Nat.succ_lt_succ hi) (Nat.succ_le_succ hij)
      · cases hfalse (Option.some.inj (hnone 0 (Nat.zero_le _)))
        rw [ihnone fun i hi => hnone (i + 1) (Nat.succ_le_succ hi)]
        congr 3
        omega

theorem delays_bounds {sessions : List Bool} {backoff delay : Rat}
    (hmin : config.reconnectInitialDelay ≤ backoff) (hmax : backoff ≤ config.reconnectMaxDelay)
    (h : delay ∈ delays config backoff sessions) :
    config.reconnectInitialDelay ≤ delay ∧ delay ≤ config.reconnectMaxDelay := by
  induction sessions generalizing backoff with
  | nil => cases h
  | cons valid sessions ih =>
    have hdelay := delayAfter_bounds hle hmin hmax valid
    rcases List.mem_cons.mp h with rfl | h
    · exact hdelay
    · exact ih (le_min (by linarith) hle) (min_le_right ..) h

/-- After a session without a valid record the delay is not shorter. -/
theorem delays_step_le {sessions : List Bool} {backoff delay delay' : Rat} {j : Nat}
    (hmin : config.reconnectInitialDelay ≤ backoff) (hmax : backoff ≤ config.reconnectMaxDelay)
    (h : (delays config backoff sessions)[j]? = some delay)
    (h' : (delays config backoff sessions)[j + 1]? = some delay')
    (hfalse : sessions[j + 1]? = some false) : delay ≤ delay' := by
  induction sessions generalizing backoff j with
  | nil => cases h
  | cons valid sessions ih =>
    have hdelay := delayAfter_bounds hle hmin hmax valid
    cases j with
    | zero =>
      cases h
      cases sessions with
      | nil => cases h'
      | cons next sessions =>
        cases hfalse
        cases h'
        exact le_min (by linarith) hdelay.2
    | succ j => exact ih (le_min (by linarith) hle) (min_le_right ..) h h' hfalse

/-- Delays do not decrease while no session receives a valid record. -/
theorem delays_mono {sessions : List Bool} {backoff delay delay' : Rat} {i j : Nat}
    (hmin : config.reconnectInitialDelay ≤ backoff) (hmax : backoff ≤ config.reconnectMaxDelay)
    (hij : i ≤ j) (h : (delays config backoff sessions)[i]? = some delay)
    (h' : (delays config backoff sessions)[j]? = some delay')
    (hfalse : ∀ k, i < k → k ≤ j → sessions[k]? = some false) : delay ≤ delay' := by
  induction j, hij using Nat.le_induction generalizing delay' with
  | base =>
    cases h.symm.trans h'
    exact le_refl _
  | succ j hij ih =>
    have hlt := (List.getElem?_eq_some_iff.mp h').1
    have hmid := List.getElem?_eq_getElem (l := delays config backoff sessions) (Nat.lt_of_succ_lt hlt)
    refine (ih hmid fun k hk hkj => hfalse k hk (Nat.le_succ_of_le hkj)).trans ?_
    exact delays_step_le hpos hle hmin hmax hmid h'
      (hfalse (j + 1) (Nat.lt_succ_of_le hij) (Nat.le_refl _))

end

/-! ## Sessions -/

/-- The sessions of a worker in a history: for each one that ended, whether it received a valid
record, and whether the current one did. -/
structure Sessions where
  ended : List Bool := []
  valid : Bool := false

def Sessions.read (n : Nat) (s : Sessions) : Event D → Sessions
  | .sessionBegan k => if k = n then { s with valid := false } else s
  | .processed k _ => if k = n then { s with valid := true } else s
  | .sessionEnded k _ => if k = n then { s with ended := s.ended ++ [s.valid] } else s
  | _ => s

/-- The worker whose session an event is about. -/
def Event.session : Event D → Option Nat
  | .sessionBegan n | .processed n _ | .sessionEnded n _ => some n
  | _ => none

def sessions (n : Nat) (l : List (Event D)) : Sessions := l.foldl (Sessions.read n) {}

theorem Sessions.read_other {n : Nat} {s : Sessions} {e : Event D} (h : e.session ≠ some n) :
    s.read n e = s := by
  cases e <;> simp_all [Sessions.read, Event.session]

theorem Sessions.foldl_other {n : Nat} {s : Sessions} {l : List (Event D)}
    (h : ∀ e ∈ l, e.session ≠ some n) : l.foldl (Sessions.read n) s = s := by
  induction l generalizing s with
  | nil => rfl
  | cons e l ih =>
    rw [List.foldl_cons, read_other (h e List.mem_cons_self)]
    exact ih fun e he => h e (List.mem_cons_of_mem _ he)

/-- A delay that a worker has entered, and when. -/
structure Pause where
  worker : Nat
  delay : Rat
  entered : TimePoint
  deriving DecidableEq

/-- The delays a worker entered, in the ghost of all of them. -/
def pausesOf (n : Nat) (g : List Pause) : List Pause := g.filter (·.worker = n)

def delaysOf (n : Nat) (g : List Pause) : List Rat := (pausesOf n g).map (·.delay)

def recordPause (g : List Pause) (w : World D) : Action D → List Pause
  | .run n _ =>
    match (w.workers n).pc with
    | .enterBackoff _ => g ++ [⟨n, (w.workers n).backoff, w.clock⟩]
    | _ => g
  | _ => g

/-- The positions in a reconnect delay. -/
def RunPc.delaying : RunPc D → Bool
  | .backoffWait | .backoffBlock _ | .backoffAsleep _ => true
  | _ => false

/-- A record was decoded and is not accounted for yet. -/
def RecordPc.pending : RecordPc D → Bool
  | .observe .. | .account .. => true
  | _ => false

/-- The local flag of `receive_session` is what the history tells of the session. -/
def Flagged (valid received : Bool) : SessionPc D → Prop
  | .record p => received = true ∧ (p.pending = false → valid = true)
  | _ => received = valid

/-- The delays that a worker has entered, and the value of its `backoff`, by its position. -/
def Paced (config : Config D) (backoff : Rat) (received : Bool) (s : Sessions) (ds : List Rat) :
    RunPc D → Prop
  | .unborn => s = {} ∧ ds = []
  | .top =>
    ds = delays config config.reconnectInitialDelay s.ended ∧
      backoff = backoffAfter config config.reconnectInitialDelay s.ended
  | .session p =>
    (ds = delays config config.reconnectInitialDelay s.ended ∧
      backoff = backoffAfter config config.reconnectInitialDelay s.ended) ∧
    Flagged s.valid received p
  | .close (.session outcome) | .closeTransport (.session outcome) | .decide outcome =>
    ∃ before, s.ended = before ++ [outcome.receivedValidRecord] ∧
      ds = delays config config.reconnectInitialDelay before ∧
      backoff = backoffAfter config config.reconnectInitialDelay before
  | .enterBackoff _ =>
    ∃ before valid, s.ended = before ++ [valid] ∧
      ds = delays config config.reconnectInitialDelay before ∧
      backoff = delayAfter config
        (backoffAfter config config.reconnectInitialDelay before) valid
  | .backoffWait | .backoffBlock _ | .backoffAsleep _ =>
    ∃ before valid, s.ended = before ++ [valid] ∧
      ds = delays config config.reconnectInitialDelay (before ++ [valid]) ∧
      backoff = delayAfter config
        (backoffAfter config config.reconnectInitialDelay before) valid
  | _ => ds <+: delays config config.reconnectInitialDelay s.ended

/-- The delay is over at clock value `now`: the worker looked at the clock after it had entered the
delay, and the end of the delay from then on has passed. -/
def Pause.Over (now : TimePoint) (p : Pause) : Prop :=
  ∃ begun deadline, p.entered ≤ begun ∧ checkedDeadline begun p.delay = some deadline ∧
    deadline ≤ now

/-- The last one of the delays is under way, and those before it are over. -/
structure LastPause (now : TimePoint) (backoff : Rat) (ps : List Pause) (p : Pause) : Prop where
  last : ∃ before, ps = before ++ [p] ∧ ∀ q ∈ before, q.Over now
  delay : p.delay = backoff
  entered : p.entered ≤ now

/-- The wait for the end of the delay has begun, and it ends at `deadline`. -/
def Pause.Until (now deadline : TimePoint) (p : Pause) : Prop :=
  ∃ begun, p.entered ≤ begun ∧ begun ≤ now ∧ checkedDeadline begun p.delay = some deadline

/-- The delays that a worker has entered are over, by its position. -/
def Rested (now : TimePoint) (stopping : Bool) (backoff : Rat) (ps : List Pause) : RunPc D → Prop
  | .unborn => ps = []
  | .top => stopping = true ∨ ∀ p ∈ ps, p.Over now
  | .session _ | .close (.session _) | .closeTransport (.session _) | .decide _
  | .enterBackoff _ => ∀ p ∈ ps, p.Over now
  | .backoffWait => ∃ p, LastPause now backoff ps p
  | .backoffBlock deadline | .backoffAsleep deadline =>
    ∃ p, LastPause now backoff ps p ∧ p.Until now deadline
  | _ => True

/-- Before the end of a session: what `Paced` says of every position of it. -/
structure InStep (config : Config D) (backoff : Rat) (s : Sessions) (ds : List Rat) : Prop where
  delays : ds = delays config config.reconnectInitialDelay s.ended
  backoff : backoff = backoffAfter config config.reconnectInitialDelay s.ended

variable {config : Config D} {w w' : World D} {t : Tid} {n k : Nat} {c : Choice D}
  {worker : Worker D} {r : RunNext D} {s : Sessions} {ds : List Rat}

theorem InStep.ended (h : InStep config worker.backoff s ds) (n : Nat) (i : Impl D)
    (result : SessionResult) (message : String) (hvalid : worker.receivedValidRecord = s.valid) :
    Paced config worker.backoff worker.receivedValidRecord
      (s.read n (.sessionEnded (D := D) n ⟨result, message, worker.receivedValidRecord⟩)) ds
      (endSession i worker n result message).worker.pc := by
  refine ⟨s.ended, ?_, h.delays, h.backoff⟩
  simp [Sessions.read, hvalid]

theorem InStep.afterRecord (h : InStep config worker.backoff s ds) {i : Impl D}
    {outcome : Option SessionResult} {events : List (Event D)}
    (hreceived : worker.receivedValidRecord = true)
    (hended : (events.foldl (Sessions.read n) s).ended = s.ended)
    (hvalid : (events.foldl (Sessions.read n) s).valid = true) :
    Paced config (afterRecord i worker n outcome events).worker.backoff
      (afterRecord i worker n outcome events).worker.receivedValidRecord
      ((afterRecord i worker n outcome events).events.foldl (Sessions.read n) s) ds
      (afterRecord i worker n outcome events).worker.pc := by
  have h' : InStep config worker.backoff (events.foldl (Sessions.read n) s) ds := by
    constructor
    · rw [hended]; exact h.delays
    · rw [hended]; exact h.backoff
  cases outcome with
  | none => exact ⟨⟨h'.delays, h'.backoff⟩, hreceived.trans hvalid.symm⟩
  | some result =>
    have hend := h'.ended n i result "" (hreceived.trans hvalid.symm)
    simpa [Client.afterRecord, endSession, List.foldl_append] using hend

theorem recordNext_paced [Double D] {p : RecordPc D}
    (hnext : recordNext config w n c worker p = some r) (h : InStep config worker.backoff s ds)
    (hp : Flagged s.valid worker.receivedValidRecord (.record p)) :
    Paced config r.worker.backoff r.worker.receivedValidRecord
      (r.events.foldl (Sessions.read n) s) ds r.worker.pc := by
  obtain ⟨hreceived, hvalid⟩ := hp
  cases p with
  | account record receivedAt rdt ft =>
    simp only [recordNext] at hnext
    split at hnext
    · cases hnext
      exact h.delays ▸ List.prefix_rfl
    · split at hnext <;> cases hnext
      · exact h.afterRecord hreceived (by simp [Sessions.read]) (by simp [Sessions.read])
      · refine ⟨⟨?_, ?_⟩, hreceived, fun _ => by simp [Sessions.read]⟩
        · simpa [Sessions.read] using h.delays
        · simpa [Sessions.read] using h.backoff
  | _ =>
    simp only [recordNext] at hnext
    (repeat' split at hnext) <;> cases hnext <;>
      first
      | exact h.afterRecord hreceived rfl (hvalid rfl)
      | exact ⟨⟨h.delays, h.backoff⟩, hreceived, fun _ => hvalid rfl⟩
      | exact ⟨⟨h.delays, h.backoff⟩, hreceived, fun h => by cases h⟩

theorem session_of_owner {e : Event D} (h : e.owner = none) : e.session = none := by
  cases e <;> first | rfl | cases h

theorem Sessions.foldl_none {l : List (Event D)} (h : ∀ e ∈ l, e.owner = none) :
    l.foldl (Sessions.read n) s = s :=
  foldl_other fun e he => by simp [session_of_owner (h e he)]

section
variable [DecidableEq D] [Double D]

theorem sessionNext_paced {p : SessionPc D} (hnext : sessionNext config w n c worker p = some r)
    (h : InStep config worker.backoff s ds) (hp : Flagged s.valid worker.receivedValidRecord p) :
    Paced config r.worker.backoff r.worker.receivedValidRecord
      (r.events.foldl (Sessions.read n) s) ds r.worker.pc := by
  cases p with
  | record p => exact recordNext_paced hnext h hp
  | sendStart =>
    simp only [sessionNext] at hnext
    split at hnext <;> cases hnext <;> rw [Sessions.foldl_none (send_owner ‹_›)] <;>
      exact ⟨⟨h.delays, h.backoff⟩, hp⟩
  | connect =>
    simp only [sessionNext] at hnext
    split at hnext <;> cases hnext
    · rw [List.foldl_append, Sessions.foldl_none (closedEvents_owner _)]
      exact ⟨⟨h.delays, h.backoff⟩, hp⟩
    · exact ⟨⟨h.delays, h.backoff⟩, hp⟩
  | pollCheck =>
    cases hnext
    dsimp only
    split <;> exact ⟨⟨h.delays, h.backoff⟩, hp⟩
  | valid record receivedAt =>
    simp only [sessionNext] at hnext
    split at hnext <;> cases hnext
    · exact h.delays ▸ List.prefix_rfl
    · exact ⟨⟨h.delays, h.backoff⟩, rfl, fun h => by cases h⟩
  | firstDeadline =>
    simp only [sessionNext] at hnext
    split at hnext <;> cases hnext
    · exact h.delays ▸ List.prefix_rfl
    · exact ⟨⟨h.delays, h.backoff⟩, hp⟩
  | _ =>
    simp only [sessionNext] at hnext
    (repeat' split at hnext) <;> cases hnext <;>
      first
      | exact h.ended n w.impl _ _ hp
      | exact ⟨⟨h.delays, h.backoff⟩, hp⟩

end

/-- After the delay. -/
theorem nextSession_paced {i : Impl D} {before : List Bool} {valid : Bool}
    (hended : s.ended = before ++ [valid])
    (hds : ds = delays config config.reconnectInitialDelay (before ++ [valid]))
    (hbackoff : worker.backoff =
      delayAfter config (backoffAfter config config.reconnectInitialDelay before) valid) :
    Paced config (nextSession config i worker).worker.backoff
      (nextSession config i worker).worker.receivedValidRecord s ds
      (nextSession config i worker).worker.pc := by
  refine ⟨hended ▸ hds, ?_⟩
  rw [hended, backoffAfter_concat, ← hbackoff]
  rfl

section
variable [DecidableEq D] [Double D]

theorem enterBackoff_paced {message : String}
    (hnext : runNext config w n c worker (.enterBackoff message) = some r)
    (h : Paced config worker.backoff worker.receivedValidRecord s ds (.enterBackoff message)) :
    Paced config r.worker.backoff r.worker.receivedValidRecord
      (r.events.foldl (Sessions.read n) s) (ds ++ [worker.backoff]) r.worker.pc := by
  obtain ⟨before, valid, hended, hds, hbackoff⟩ := h
  cases hnext
  refine ⟨before, valid, hended, ?_, hbackoff⟩
  rw [delays_concat, ← hbackoff, ← hds]

theorem runNext_paced {p : RunPc D} (hnext : runNext config w n c worker p = some r)
    (hp : ∀ message, p ≠ .enterBackoff message)
    (h : Paced config worker.backoff worker.receivedValidRecord s ds p) :
    Paced config r.worker.backoff r.worker.receivedValidRecord
      (r.events.foldl (Sessions.read n) s) ds r.worker.pc := by
  cases p with
  | session p =>
    exact sessionNext_paced hnext ⟨h.1.1, h.1.2⟩ h.2
  | top =>
    simp only [runNext] at hnext
    split at hnext <;> cases hnext
    · exact h.1 ▸ List.prefix_rfl
    · refine ⟨?_, ?_⟩
      · simpa [Sessions.read, Paced] using h
      · simp [Flagged, Sessions.read]
  | close context =>
    simp only [runNext] at hnext
    split at hnext
    · split at hnext <;> cases hnext
      rw [Sessions.foldl_none (send_owner ‹_›)]
      cases context <;> exact h
    · cases hnext
      cases context <;> exact h
  | closeTransport context =>
    cases hnext
    rw [Sessions.foldl_none (closedEvents_owner _)]
    cases context <;> exact h
  | decide outcome =>
    obtain ⟨before, hended, hds, hbackoff⟩ := h
    have hentered : ds <+: delays config config.reconnectInitialDelay s.ended := by
      rw [hds, hended]
      exact delays_before_concat ..
    simp only [runNext] at hnext
    split at hnext
    · cases hnext; exact hentered
    split at hnext
    · cases hnext; exact hentered
    · cases hnext
      refine ⟨before, outcome.receivedValidRecord, hended, hds, ?_⟩
      rw [← hbackoff, delayAfter]
  | enterBackoff message => exact absurd rfl (hp message)
  | backoffWait | backoffBlock | backoffAsleep =>
    obtain ⟨before, valid, hended, hds, hbackoff⟩ := h
    simp only [runNext] at hnext
    (repeat' split at hnext) <;> cases hnext <;>
      first
      | exact ⟨before, valid, hended, hds, hbackoff⟩
      | (rw [hds, ← hended]; exact List.prefix_rfl)
      | exact nextSession_paced hended hds hbackoff
  | raised message | finalFaulted =>
    cases hnext
    dsimp only
    split <;> exact h
  | publish code message =>
    cases hnext
    dsimp only
    split <;> exact h
  | _ => cases hnext <;> exact h

end

theorem Paced.entered {backoff : Rat} {received : Bool} {p : RunPc D}
    (h : Paced config backoff received s ds p) :
    ds <+: delays config config.reconnectInitialDelay s.ended := by
  cases p with
  | unborn =>
    obtain ⟨rfl, rfl⟩ := h
    exact List.prefix_rfl
  | top => exact h.1 ▸ List.prefix_rfl
  | session q => exact h.1.1 ▸ List.prefix_rfl
  | close context | closeTransport context =>
    cases context with
    | finish => exact h
    | session outcome =>
      obtain ⟨before, hended, rfl, -⟩ := h
      exact hended ▸ delays_before_concat ..
  | decide outcome =>
    obtain ⟨before, hended, rfl, -⟩ := h
    exact hended ▸ delays_before_concat ..
  | enterBackoff message =>
    obtain ⟨before, valid, hended, rfl, -⟩ := h
    exact hended ▸ delays_before_concat ..
  | backoffWait | backoffBlock | backoffAsleep =>
    obtain ⟨before, valid, hended, rfl, -⟩ := h
    exact hended ▸ List.prefix_rfl
  | _ => exact h

/-- The positions between the end of a delay and the next end of a session. -/
def RunPc.goesOn : RunPc D → Bool
  | .top | .session _ => true
  | _ => false

/-- Each session that has ended was followed by a delay. -/
theorem Paced.goesOn {backoff : Rat} {received : Bool} {p : RunPc D}
    (h : Paced config backoff received s ds p) (hp : p.goesOn = true) :
    ds.length = s.ended.length := by
  cases p with
  | top => rw [h.1, length_delays]
  | session q => rw [h.1.1, length_delays]
  | _ => cases hp

theorem Paced.delaying {backoff : Rat} {received : Bool} {p : RunPc D}
    (h : Paced config backoff received s ds p) (hp : p.delaying = true) :
    ds.length = s.ended.length ∧ ds.getLast? = some backoff := by
  cases p with
  | backoffWait | backoffBlock | backoffAsleep =>
    obtain ⟨before, valid, hended, rfl, hbackoff⟩ := h
    refine ⟨by rw [length_delays, hended], ?_⟩
    rw [delays_concat, ← hbackoff, List.getLast?_concat]
  | _ => cases hp

/-! ## The waits -/

theorem Pause.Over.later {now now' : TimePoint} {p : Pause} (h : p.Over now) (hle : now ≤ now') :
    p.Over now' := by
  obtain ⟨begun, deadline, hentered, hdeadline, hover⟩ := h
  exact ⟨begun, deadline, hentered, hdeadline, hover.trans hle⟩

theorem LastPause.later {now now' : TimePoint} {backoff : Rat} {ps : List Pause} {p : Pause}
    (h : LastPause now backoff ps p) (hle : now ≤ now') : LastPause now' backoff ps p := by
  obtain ⟨⟨before, hps, hbefore⟩, hdelay, hentered⟩ := h
  exact ⟨⟨before, hps, fun q hq => (hbefore q hq).later hle⟩, hdelay, hentered.trans hle⟩

/-- When the last delay is over, all are. -/
theorem LastPause.over {now deadline : TimePoint} {backoff : Rat} {ps : List Pause} {p : Pause}
    (h : LastPause now backoff ps p) (huntil : p.Until now deadline) (hle : deadline ≤ now) :
    ∀ q ∈ ps, q.Over now := by
  obtain ⟨⟨before, rfl, hbefore⟩, -, -⟩ := h
  obtain ⟨begun, hentered, -, hdeadline⟩ := huntil
  intro q hq
  rcases List.mem_append.mp hq with hq | hq
  · exact hbefore q hq
  · rw [List.mem_singleton.mp hq]
    exact ⟨begun, deadline, hentered, hdeadline, hle⟩

/-- Where the run goes on, the delays are over or a stop is requested. -/
theorem Rested.goesOn {now : TimePoint} {stopping : Bool} {backoff : Rat} {ps : List Pause}
    {p : RunPc D} (h : Rested now stopping backoff ps p) (hp : p.goesOn = true) :
    stopping = true ∨ ∀ q ∈ ps, q.Over now := by
  cases p with
  | top => exact h
  | session q => exact .inr h
  | _ => cases hp

/-- Time passes, and a stop may be requested while the worker executes. -/
theorem Rested.later {now now' : TimePoint} {stopping stopping' : Bool} {backoff : Rat}
    {ps : List Pause} {p : RunPc D} (h : Rested now stopping backoff ps p) (hle : now ≤ now')
    (hstop : p.running = true → stopping = true → stopping' = true) :
    Rested now' stopping' backoff ps p := by
  have hover : (∀ q ∈ ps, q.Over now) → ∀ q ∈ ps, q.Over now' := fun h q hq => (h q hq).later hle
  cases p with
  | unborn => exact h
  | top => exact h.imp (hstop rfl) hover
  | session | decide | enterBackoff => exact hover h
  | close context | closeTransport context =>
    cases context with
    | finish => trivial
    | session outcome => exact hover h
  | backoffWait =>
    obtain ⟨p, hp⟩ := h
    exact ⟨p, hp.later hle⟩
  | backoffBlock deadline | backoffAsleep deadline =>
    obtain ⟨p, hp, begun, hentered, hbegun, hdeadline⟩ := h
    exact ⟨p, hp.later hle, begun, hentered, hbegun.trans hle, hdeadline⟩
  | _ => trivial

section
variable [DecidableEq D] [Double D] {ps : List Pause}

theorem runNext_rested {p : RunPc D} (hnext : runNext config w n c worker p = some r)
    (hp : ∀ message, p ≠ .enterBackoff message)
    (h : Rested w.clock w.impl.stopping worker.backoff ps p) :
    Rested w.clock r.impl.stopping r.worker.backoff ps r.worker.pc := by
  cases p with
  | session q =>
    rcases sessionNext_pc hnext with ⟨_, hpc⟩ | ⟨_, hpc⟩ | ⟨_, hpc⟩ <;> rw [hpc]
    · exact h
    · exact h
    · trivial
  | top =>
    simp only [runNext] at hnext
    split at hnext <;> rename_i hover <;> cases hnext
    · trivial
    · exact h.resolve_left fun hstop => hover (by simp [hstop])
  | close context =>
    simp only [runNext] at hnext
    (repeat' split at hnext) <;> cases hnext <;> cases context <;> exact h
  | closeTransport context =>
    cases hnext
    cases context with
    | finish => trivial
    | session outcome => exact h
  | decide outcome =>
    simp only [runNext] at hnext
    (repeat' split at hnext) <;> cases hnext
    · trivial
    · trivial
    all_goals exact h
  | enterBackoff message => exact absurd rfl (hp message)
  | backoffWait =>
    obtain ⟨p, hlast⟩ := h
    simp only [runNext] at hnext
    (repeat' split at hnext) <;> cases hnext
    · trivial
    · exact .inl ‹_›
    · rename_i hdeadline _
      exact ⟨p, hlast, w.clock, hlast.entered, Nat.le_refl _, hlast.delay ▸ hdeadline⟩
  | backoffBlock deadline => cases hnext; exact h
  | backoffAsleep deadline =>
    obtain ⟨p, hlast, huntil⟩ := h
    simp only [runNext] at hnext
    (repeat' split at hnext) <;> cases hnext
    · rename_i hover
      rcases Bool.or_eq_true_iff.mp hover with hstop | hdeadline
      · exact .inl hstop
      · exact .inr (hlast.over huntil (of_decide_eq_true hdeadline))
    · exact ⟨p, hlast, huntil⟩
  | raised | finalFaulted =>
    cases hnext
    dsimp only
    split <;> trivial
  | _ =>
    simp only [runNext] at hnext
    (repeat' split at hnext) <;> cases hnext <;> exact h

theorem enterBackoff_rested {message : String}
    (hnext : runNext config w n c worker (.enterBackoff message) = some r)
    (h : Rested w.clock w.impl.stopping worker.backoff ps (.enterBackoff message : RunPc D)) :
    Rested w.clock r.impl.stopping r.worker.backoff (ps ++ [⟨n, worker.backoff, w.clock⟩])
      r.worker.pc := by
  cases hnext
  exact ⟨_, ⟨ps, rfl, h⟩, rfl, Nat.le_refl _⟩

/-- After a failed session there is a delay, unless a stop is requested. -/
theorem decide_enters {outcome : SessionOutcome} (hpolicy : config.recoveryPolicy = .reconnect)
    (hfailed : outcome.result ≠ .stopped) (hstop : w.impl.stopping = false)
    (hnext : runNext config w n c worker (.decide outcome) = some r) :
    ∃ message, r.worker.pc = .enterBackoff message := by
  simp only [runNext, hpolicy, hfailed, hstop, reduceCtorEq, and_false, or_self, if_false,
    Bool.false_eq_true] at hnext
  cases hnext
  exact ⟨_, rfl⟩

end

/-! ## Runs -/

theorem applyApi_backoff {r : ApiNext D} (hunborn : (w.workers k).pc = .unborn)
    (htop : ((w.applyApi config t r).workers k).pc = .top) :
    ((w.applyApi config t r).workers k).backoff = config.reconnectInitialDelay := by
  by_cases hk : k = w.created
  · subst hk
    cases hspawn : r.spawn <;> simp_all [World.applyApi]
  · rw [applyApi_workers_ne hk, hunborn] at htop
    cases htop

theorem owner_of_session {e : Event D} (h : e.session = some n) : e.owner = some n := by
  cases e <;> first | exact h | cases h

/-- The facts about one worker that hold in every run. -/
def World.paced (config : Config D) (w : World D) (l : List (Event D)) (g : List Pause)
    (n : Nat) : Prop :=
  Paced config (w.workers n).backoff (w.workers n).receivedValidRecord (sessions n l)
    (delaysOf n g) (w.workers n).pc

/-- The waits of one worker. -/
def World.rested (w : World D) (g : List Pause) (n : Nat) : Prop :=
  Rested w.clock w.impl.stopping (w.workers n).backoff (pausesOf n g) (w.workers n).pc

theorem World.rested_of_same {g g' : List Pause} (h : w.rested g n)
    (hworker : w'.workers n = w.workers n) (hg : pausesOf n g' = pausesOf n g)
    (hclock : w.clock ≤ w'.clock)
    (hstop : w.executing n → w.impl.stopping = true → w'.impl.stopping = true) :
    w'.rested g' n := by
  rw [rested, hworker, hg]
  exact h.later hclock hstop

theorem World.paced_of_same {l l' : List (Event D)} {g g' : List Pause}
    (h : w.paced config l g n) (hworker : w'.workers n = w.workers n)
    (hl' : ∀ e ∈ l', e.session ≠ some n) (hg : delaysOf n g' = delaysOf n g) :
    w'.paced config (l ++ l') g' n := by
  rw [paced, hworker, hg, sessions, List.foldl_append, Sessions.foldl_other hl']
  exact h

/-- A worker that is created has no session and no delay behind it. -/
theorem World.paced_api {r : ApiNext D} {g : List Pause} (h : w.paced config l g n)
    (ho : Orderly w) (hnext : apiNext w t c (w.api t) = some r) :
    (w.applyApi config t r).paced config (l ++ r.events) g n := by
  have hother : ∀ e ∈ r.events, e.session ≠ some n := fun e he => by
    simp [session_of_owner (owner_of_byApi (apiNext_events hnext e he))]
  rcases ho.applyApi_worker config t r n with hworker | ⟨hunborn, htop⟩
  · exact World.paced_of_same h hworker hother rfl
  · rw [paced, hunborn] at h
    rw [paced, htop, sessions, List.foldl_append, Sessions.foldl_other hother,
      applyApi_backoff hunborn htop]
    obtain ⟨hs, hds⟩ := h
    rw [show l.foldl (Sessions.read n) {} = ({} : Sessions) from hs]
    exact ⟨hds, rfl⟩

theorem World.rested_api {r : ApiNext D} {g : List Pause} (h : w.rested g n) (ho : Orderly w)
    (hnext : apiNext w t c (w.api t) = some r) : (w.applyApi config t r).rested g n := by
  rcases ho.applyApi_worker config t r n with hworker | ⟨hunborn, htop⟩
  · exact World.rested_of_same h hworker rfl (Nat.le_refl _) (ho.apiNext_keeps_stopping hnext)
  · rw [rested, hunborn] at h
    rw [rested, htop]
    have hnone : pausesOf n g = [] := h
    exact .inr fun p hp => by simp [hnone] at hp

theorem pausesOf_concat (g : List Pause) (delay : Rat) (entered : TimePoint) :
    pausesOf n (g ++ [⟨n, delay, entered⟩]) = pausesOf n g ++ [⟨n, delay, entered⟩] := by
  simp [pausesOf, List.filter_append]

theorem pausesOf_concat_ne (g : List Pause) (delay : Rat) (entered : TimePoint) (hn : n ≠ k) :
    pausesOf n (g ++ [⟨k, delay, entered⟩]) = pausesOf n g := by
  simp [pausesOf, List.filter_append, hn.symm]

theorem delaysOf_concat (g : List Pause) (delay : Rat) (entered : TimePoint) :
    delaysOf n (g ++ [⟨n, delay, entered⟩]) = delaysOf n g ++ [delay] := by
  simp [delaysOf, pausesOf_concat]

theorem delaysOf_concat_ne (g : List Pause) (delay : Rat) (entered : TimePoint) (hn : n ≠ k) :
    delaysOf n (g ++ [⟨k, delay, entered⟩]) = delaysOf n g := by
  rw [delaysOf, pausesOf_concat_ne _ _ _ hn, delaysOf]

theorem recordPause_run (g : List Pause) (w : World D) (n : Nat) (c : Choice D) :
    (∃ message, (w.workers n).pc = .enterBackoff message ∧
        recordPause g w (.run n c) = g ++ [⟨n, (w.workers n).backoff, w.clock⟩]) ∨
      (∀ message, (w.workers n).pc ≠ .enterBackoff message) ∧ recordPause g w (.run n c) = g := by
  simp only [recordPause]
  split
  · exact .inl ⟨_, ‹_›, rfl⟩
  · exact .inr ⟨‹_›, rfl⟩

section
variable [DecidableEq D] [Double D]

/-- The client, with the ghost of the delays it enters. -/
def backoffMachine (config : Config D) :
    Machine (World D × List Pause) (Action D) (Event D) :=
  (machine config).withGhost recordPause

/-- Only the entry into a delay counts a reconnect. -/
theorem runNext_reconnectCount {p : RunPc D} (hnext : runNext config w n c worker p = some r)
    (hp : ∀ message, p ≠ .enterBackoff message) :
    r.impl.health.reconnectCount = w.impl.health.reconnectCount := by
  cases p with
  | enterBackoff message => exact absurd rfl (hp message)
  | session q =>
    cases q with
    | record q => exact (recordNext_failureCounts hnext).2
    | apply configuration =>
      cases hnext
      exact (applyConfiguration_report configuration).1.reconnectCount
    | _ =>
      simp only [runNext, sessionNext] at hnext
      (repeat' split at hnext) <;> cases hnext <;> rfl
  | publish code message =>
    cases hnext
    simp only [Impl.publish]
    split <;> rfl
  | _ =>
    simp only [runNext] at hnext
    (repeat' split at hnext) <;> cases hnext <;> rfl

/-- A worker reports of its own sessions only. -/
theorem runNext_session {p : RunPc D} (hnext : runNext config w n c worker p = some r)
    (hk : k ≠ n) : ∀ e ∈ r.events, e.session ≠ some k := by
  intro e he hsession
  have howner := owner_of_session hsession
  rcases runNext_owner hnext e he with hnone | hn
  · simp [hnone] at howner
  · exact hk (Option.some.inj (howner.symm.trans hn))

theorem World.paced_run {r : RunNext D} {g : List Pause} (h : w.paced config l g n)
    (hnext : runNext config w k c (w.workers k) (w.workers k).pc = some r) :
    (w.applyRun k r).paced config (l ++ r.events) (recordPause g w (.run k c)) n := by
  by_cases hn : n = k
  · subst hn
    rw [paced, World.applyRun_workers, Function.update_self, sessions, List.foldl_append]
    rcases recordPause_run g w n c with ⟨message, hpc, hg⟩ | ⟨hpc, hg⟩ <;> rw [hg]
    · rw [paced, hpc] at h
      rw [hpc] at hnext
      have hnew := enterBackoff_paced hnext h
      rw [delaysOf_concat]
      exact hnew
    · exact runNext_paced hnext hpc h
  · refine World.paced_of_same h (Function.update_of_ne hn ..) (runNext_session hnext hn) ?_
    rcases recordPause_run g w k c with ⟨-, -, hg⟩ | ⟨-, hg⟩ <;> rw [hg]
    exact delaysOf_concat_ne _ _ _ hn

/-- `reconnect_count` and the ghost grow together. -/
theorem recordPause_counted {r : RunNext D} {g : List Pause}
    (h : w.impl.health.reconnectCount = g.length)
    (hnext : runNext config w k c (w.workers k) (w.workers k).pc = some r) :
    r.impl.health.reconnectCount = (recordPause g w (.run k c)).length := by
  rcases recordPause_run g w k c with ⟨message, hpc, hg⟩ | ⟨hpc, hg⟩ <;> rw [hg]
  · rw [hpc] at hnext
    cases hnext
    simpa [Impl.enterBackoff] using h
  · exact (runNext_reconnectCount hnext hpc).trans h

theorem paced_of_run {v : World D × List Pause}
    (h : (backoffMachine config).Run (World.initial clock, []) l v) :
    v.1.impl.health.reconnectCount = v.2.length ∧ ∀ n, v.1.paced config l v.2 n := by
  refine h.invariant (I := fun v l =>
    v.1.impl.health.reconnectCount = v.2.length ∧ ∀ n, v.1.paced config l v.2 n) ?_ ?_
  · exact ⟨rfl, fun n => ⟨rfl, rfl⟩⟩
  · rintro ⟨v, g⟩ k a ⟨v', g'⟩ k' hv ⟨hcount, hi⟩ hstep
    obtain ⟨hbase, rfl⟩ := Machine.withGhost_step.mp hstep
    have hbase : step config v a = some (v', k') := hbase
    have hr : Reachable config v k := ⟨clock, hv.eraseGhost⟩
    cases a with
    | run m c =>
      obtain ⟨r, hnext, -, rfl, rfl⟩ := step_run hbase
      exact ⟨recordPause_counted hcount hnext, fun n => World.paced_run (hi n) hnext⟩
    | api t c =>
      obtain ⟨r, hnext, -, rfl, rfl⟩ := step_api hbase
      have hlife := (apiNext_lifetime hnext (hr.savedLifetime t)).1
      exact ⟨(congrArg (fun h => h.reconnectCount) hlife).trans hcount,
        fun n => World.paced_api (hi n) hr.orderly hnext⟩
    | call t call =>
      simp only [step] at hbase
      (repeat' split at hbase) <;> cases hbase
      exact ⟨hcount, fun n => World.paced_of_same (hi n) rfl (by simp [Event.session]) rfl⟩
    | tick ticks =>
      cases hbase
      exact ⟨hcount, fun n => World.paced_of_same (hi n) rfl (by simp) rfl⟩
    | spurious t =>
      cases hbase
      exact ⟨hcount, fun n => World.paced_of_same (hi n) rfl (by simp) rfl⟩

theorem World.rested_run {r : RunNext D} {g : List Pause} (h : w.rested g n)
    (hnext : runNext config w k c (w.workers k) (w.workers k).pc = some r) :
    (w.applyRun k r).rested (recordPause g w (.run k c)) n := by
  by_cases hn : n = k
  · subst hn
    have hself : (w.applyRun n r).workers n = r.worker := Function.update_self ..
    rw [rested, hself]
    rcases recordPause_run g w n c with ⟨message, hpc, hg⟩ | ⟨hpc, hg⟩ <;> rw [hg]
    · rw [rested, hpc] at h
      rw [hpc] at hnext
      have hnew := enterBackoff_rested hnext h
      rw [pausesOf_concat]
      exact hnew
    · have hnew := runNext_rested hnext hpc h
      exact hnew
  · refine World.rested_of_same h (Function.update_of_ne hn ..) ?_ (Nat.le_refl _)
      fun _ hstop => (runNext_control hnext).stopping.trans hstop
    rcases recordPause_run g w k c with ⟨-, -, hg⟩ | ⟨-, hg⟩ <;> rw [hg]
    exact pausesOf_concat_ne _ _ _ hn

theorem rested_of_run {v : World D × List Pause}
    (h : (backoffMachine config).Run (World.initial clock, []) l v) : ∀ n, v.1.rested v.2 n := by
  refine h.invariant (I := fun v _ => ∀ n, v.1.rested v.2 n) (fun n => rfl) ?_
  rintro ⟨v, g⟩ k a ⟨v', g'⟩ k' hv hi hstep n
  obtain ⟨hbase, rfl⟩ := Machine.withGhost_step.mp hstep
  have hbase : step config v a = some (v', k') := hbase
  have hi : v.rested g n := hi n
  have hr : Reachable config v k := ⟨clock, hv.eraseGhost⟩
  show v'.rested (recordPause g v a) n
  cases a with
  | run m c =>
    obtain ⟨r, hnext, -, rfl, -⟩ := step_run hbase
    exact World.rested_run hi hnext
  | api t c =>
    obtain ⟨r, hnext, -, rfl, -⟩ := step_api hbase
    exact World.rested_api hi hr.orderly hnext
  | call t call =>
    simp only [step] at hbase
    (repeat' split at hbase) <;> cases hbase
    exact World.rested_of_same hi rfl rfl (Nat.le_refl _) fun _ => id
  | tick ticks =>
    cases hbase
    exact World.rested_of_same hi rfl rfl (Nat.le_add_right ..) fun _ => id
  | spurious t =>
    cases hbase
    exact World.rested_of_same hi rfl rfl (Nat.le_refl _) fun _ => id

/-- What a step of a worker does in a delay: the wait lasts until its deadline, unless a stop is
requested. -/
inductive DelayStep (w : World D) (delay : Rat) : RunPc D → RunPc D → Prop
  | begins {deadline : TimePoint} (h : checkedDeadline w.clock delay = some deadline)
      (hstop : w.impl.stopping = false) :
    DelayStep w delay .backoffWait (.backoffBlock deadline)
  | unrepresentable (h : checkedDeadline w.clock delay = none) :
    DelayStep w delay .backoffWait (.raised deadlineMessage)
  | stopped (h : w.impl.stopping = true) : DelayStep w delay .backoffWait .top
  | sleeps {deadline : TimePoint} :
    DelayStep w delay (.backoffBlock deadline) (.backoffAsleep deadline)
  | wakes {deadline : TimePoint} (h : w.impl.stopping = false ∧ w.clock < deadline) :
    DelayStep w delay (.backoffAsleep deadline) (.backoffBlock deadline)
  | ended {deadline : TimePoint} (h : w.impl.stopping = true ∨ deadline ≤ w.clock) :
    DelayStep w delay (.backoffAsleep deadline) .top

theorem runNext_delay {p : RunPc D} (hnext : runNext config w n c worker p = some r)
    (hp : p.delaying = true) : DelayStep w worker.backoff p r.worker.pc := by
  cases p with
  | backoffWait =>
    simp only [runNext] at hnext
    (repeat' split at hnext) <;> cases hnext
    · exact .unrepresentable ‹_›
    · exact .stopped ‹_›
    · exact .begins ‹_› (eq_false_of_ne_true ‹_›)
  | backoffBlock deadline => cases hnext; exact .sleeps
  | backoffAsleep deadline =>
    simp only [runNext] at hnext
    (repeat' split at hnext) <;> cases hnext
    · rename_i hover
      exact .ended (by simpa using hover)
    · rename_i hwaits
      exact .wakes (by simpa using hwaits)
  | _ => cases hp

/-- In every run of a client with accepted settings that reconnects: the delay after the session `j`
of a worker (counted from zero) is the initial delay, doubled for each session since the last one,
`m`, that received a valid record, or for each session before `j` if none did, and capped by the
maximal delay; it lies between the two, and does not decrease while no session receives a valid
record. After each failed session exactly one delay is entered, unless a stop is requested, and no
session begins before it is over. A worker waits for the delay of its last session, until its end or
a stop; where the end is out of range it raises instead. `reconnect_count` is the number of delays
that were entered. -/
theorem reconnect_backoff_law [CountOrder D] {settings : Settings D} {now : Nat → TimePoint}
    (haccepted : settings.validate now = .ok ())
    (hpolicy : settings.recoveryPolicy = .reconnect) {g : List Pause}
    (h : (backoffMachine settings.toConfig).Run (World.initial clock, []) l (w, g)) :
    w.impl.health.reconnectCount = g.length ∧
    ∀ n : Nat,
      (delaysOf n g).length ≤ (sessions n l).ended.length ∧
      (∀ j delay, (delaysOf n g)[j]? = some delay →
        (∀ m ≤ j, (sessions n l).ended[m]? = some true →
          (∀ i, m < i → i ≤ j → (sessions n l).ended[i]? = some false) →
          delay = min (settings.reconnectInitialDelay * 2 ^ (j - m)) settings.reconnectMaxDelay) ∧
        ((∀ i ≤ j, (sessions n l).ended[i]? = some false) →
          delay = min (settings.reconnectInitialDelay * 2 ^ j) settings.reconnectMaxDelay) ∧
        settings.reconnectInitialDelay ≤ delay ∧ delay ≤ settings.reconnectMaxDelay) ∧
      (∀ (i j : Nat) (delay delay' : Rat), i ≤ j → (delaysOf n g)[i]? = some delay →
        (delaysOf n g)[j]? = some delay' →
        (∀ k, i < k → k ≤ j → (sessions n l).ended[k]? = some false) → delay ≤ delay') ∧
      ((w.workers n).pc.goesOn = true →
        (delaysOf n g).length = (sessions n l).ended.length ∧
        (w.impl.stopping = true ∨ ∀ p ∈ pausesOf n g, p.Over w.clock)) ∧
      (∀ q, (w.workers n).pc = .session q → ∀ p ∈ pausesOf n g, p.Over w.clock) ∧
      (∀ outcome c w' l', (w.workers n).pc = .decide outcome → outcome.result ≠ .stopped →
        w.impl.stopping = false → step settings.toConfig w (.run n c) = some (w', l') →
        ∃ message, (w'.workers n).pc = .enterBackoff message) ∧
      ((w.workers n).pc.delaying = true →
        (delaysOf n g).length = (sessions n l).ended.length ∧
        (delaysOf n g).getLast? = some (w.workers n).backoff ∧
        ∀ c w' l', step settings.toConfig w (.run n c) = some (w', l') →
          DelayStep w (w.workers n).backoff (w.workers n).pc (w'.workers n).pc) := by
  obtain ⟨hpos, hle⟩ := settings.validate_delays haccepted
  obtain ⟨hcount, hpaced⟩ := paced_of_run h
  refine ⟨hcount, fun n => ?_⟩
  have hentered := (hpaced n).entered
  have hrested := rested_of_run h n
  have hget : ∀ {j : Nat} {delay : Rat}, (delaysOf n g)[j]? = some delay →
      (delays settings.toConfig settings.reconnectInitialDelay (sessions n l).ended)[j]? =
        some delay := by
    intro j delay hj
    obtain ⟨rest, hrest⟩ := hentered
    rw [← hrest]
    exact (List.getElem?_append_left (List.getElem?_eq_some_iff.mp hj).1).trans hj
  refine ⟨?_, fun j delay hj => ?_, fun i j delay delay' hij hi hj hfalse => ?_, fun hon => ?_,
    fun q hq => ?_, fun outcome c w' l' hpc hfailed hstop hstep => ?_, fun hdelaying => ?_⟩
  · simpa only [length_delays] using hentered.length_le
  · have hfirst := hget hj
    have hmem := List.mem_of_getElem? hfirst
    rw [← capped_initial hle] at hfirst
    obtain ⟨hvalid, hnone⟩ := delays_law hpos hle hfirst
    refine ⟨hvalid, fun hall => ?_, delays_bounds hpos hle (le_refl _) hle hmem⟩
    rw [hnone hall, Nat.zero_add]
  · exact delays_mono hpos hle (le_refl _) hle hij (hget hi) (hget hj) hfalse
  · exact ⟨(hpaced n).goesOn hon, hrested.goesOn hon⟩
  · rw [World.rested, hq] at hrested
    exact hrested
  · obtain ⟨r, hnext, -, rfl, -⟩ := step_run hstep
    rw [World.applyRun_workers, Function.update_self]
    rw [hpc] at hnext
    exact decide_enters hpolicy hfailed hstop hnext
  · obtain ⟨hlength, hlast⟩ := (hpaced n).delaying hdelaying
    refine ⟨hlength, hlast, fun c w' l' hstep => ?_⟩
    obtain ⟨r, hnext, -, rfl, -⟩ := step_run hstep
    rw [World.applyRun_workers, Function.update_self]
    exact runNext_delay hnext hdelaying

end

/-! ### Runs -/

/-- Settings with delays from one to three seconds. -/
def patientSettings : Settings Rat :=
  { demoConfig .reconnect with
    reconnectMaxDelay := 3
    sensorHost := [0x73]
    rdtPort := 49152
    httpPort := 80
    configurationConnectTimeout := 1
    configurationTimeout := 1 }

/-- A session of worker `n` whose connection fails, up to the wait for its delay. -/
def failedSession (n : Nat) : List (Action Rat) :=
  List.replicate 6 (.run n .go) ++ .run n (.fails "") :: List.replicate 7 (.run n .go)

/-- Two sessions fail; a third one receives a record, and then nothing until the timeout. -/
def delayedClient : (World Rat × List Pause) × List (Event Rat) :=
  (backoffMachine patientSettings.toConfig).perform (World.initial 1, [])
    (startActions (.client 0) ++ failedSession 0 ++ [.tick 1000000000, .run 0 .go] ++
      failedSession 0 ++ [.tick 2000000000, .run 0 .go] ++ openActions 0 ++
      receiveActions 0 (plainRecord 1 1) ++ [.tick 1000000000] ++ List.replicate 3 (.run 0 .go) ++
      [.run 0 .succeeds] ++ List.replicate 5 (.run 0 .go))

theorem reconnect_backoff_law_delayedClient :
    patientSettings.validate (fun _ => 1) = .ok () ∧
      (sessions 0 delayedClient.2).ended = [false, false, true] ∧
      (delaysOf 0 delayedClient.1.2)[1]? = some (min (1 * 2 ^ 1) 3) ∧
      (delaysOf 0 delayedClient.1.2)[2]? = some (min (1 * 2 ^ 0) 3) ∧
      delayedClient.1.1.impl.health.reconnectCount = 3 := by
  have haccepted : patientSettings.validate (fun _ => 1) = .ok () := by decide +kernel
  have hrun : (backoffMachine patientSettings.toConfig).Run (World.initial 1, []) delayedClient.2
      (delayedClient.1.1, delayedClient.1.2) := Machine.run_perform (by decide +kernel)
  have hended : (sessions 0 delayedClient.2).ended = [false, false, true] := by decide +kernel
  have hlength : (delaysOf 0 delayedClient.1.2).length = 3 := by decide +kernel
  have hsecond := List.getElem?_eq_getElem (l := delaysOf 0 delayedClient.1.2) (i := 1) (by omega)
  have hthird := List.getElem?_eq_getElem (l := delaysOf 0 delayedClient.1.2) (i := 2) (by omega)
  obtain ⟨hcount, hlaw⟩ := reconnect_backoff_law haccepted rfl hrun
  refine ⟨haccepted, hended, ?_, ?_, hcount.trans (by decide +kernel)⟩
  · rw [hsecond, ((hlaw 0).2.1 1 _ hsecond).2.1 (by rw [hended]; decide)]
    rfl
  · rw [hthird, ((hlaw 0).2.1 2 _ hthird).1 2 (Nat.le_refl _) (by rw [hended]; rfl)
      fun i hi hle => absurd hi (by omega)]
    rfl

/-- Settings with a delay that is in range when the client is constructed, one hour after the clock
started, and no longer ten minutes later. -/
def farSettings : Settings Rat :=
  { patientSettings with reconnectInitialDelay := 9223368000, reconnectMaxDelay := 9223368000 }

/-- Ten minutes later a session fails. -/
def undelayedClient : (World Rat × List Pause) × List (Event Rat) :=
  (backoffMachine farSettings.toConfig).perform (World.initial 3600000000000, [])
    (.tick 600000000000 :: startActions (.client 0) ++ failedSession 0 ++
      List.replicate 9 (.run 0 .go))

/-- No time passes in the delay: the worker ends with a fault. -/
theorem reconnect_without_delay :
    farSettings.validate (fun _ => 3600000000000) = .ok () ∧
      farSettings.recoveryPolicy = .reconnect ∧
      (backoffMachine farSettings.toConfig).Run (World.initial 3600000000000, []) undelayedClient.2
        undelayedClient.1 ∧
      (sessions 0 undelayedClient.2).ended = [false] ∧
      pausesOf 0 undelayedClient.1.2 = [⟨0, 9223368000, undelayedClient.1.1.clock⟩] ∧
      .published 0 .socket ∈ undelayedClient.2 ∧ .runEnded 0 ∈ undelayedClient.2 := by
  exact ⟨by decide +kernel, rfl, Machine.run_perform (by decide +kernel), by decide +kernel,
    by decide +kernel, by decide +kernel, by decide +kernel⟩

end NetFT.Client
