import NetFT.Client.Launch
import NetFT.Client.Timeout

/-! Malformed storms. A ghost beside the client keeps the datagrams that each worker has looked at.
The counter of malformed datagrams in a row is not reset between two sessions, so it counts over all
datagrams of a run; they are those of the session as long as no session begins with a malformed
datagram after an earlier one has ended with one. -/

namespace NetFT.Client
open Detail Library

variable {D : Type}

/-- Neither empty nor of the length of a record. -/
def malformed (datagram : List UInt8) : Bool := datagram ≠ [] && datagram.length ≠ 36

/-- The last ten datagrams are malformed. -/
def LastTenMalformed (datagrams : List (List UInt8)) : Prop :=
  ∃ before last, datagrams = before ++ last ∧ last.length = kMalformedStormThreshold ∧
    ∀ datagram ∈ last, malformed datagram = true

/-- The number of malformed datagrams at the end. -/
def trailing (datagrams : List (List UInt8)) : Nat :=
  datagrams.foldl (fun k datagram => if malformed datagram then k + 1 else 0) 0

@[simp] theorem trailing_nil : trailing [] = 0 := rfl

theorem trailing_concat (datagrams : List (List UInt8)) (datagram : List UInt8) :
    trailing (datagrams ++ [datagram]) =
      if malformed datagram then trailing datagrams + 1 else 0 := by
  simp [trailing, List.foldl_append]

theorem le_trailing_iff {datagrams : List (List UInt8)} {k : Nat} :
    k ≤ trailing datagrams ↔ ∃ before last, datagrams = before ++ last ∧ last.length = k ∧
      ∀ datagram ∈ last, malformed datagram = true := by
  induction datagrams using List.reverseRecOn generalizing k with
  | nil =>
    constructor
    · intro h
      cases Nat.le_zero.mp h
      exact ⟨[], [], rfl, rfl, fun _ h => by cases h⟩
    · rintro ⟨before, last, heq, rfl, -⟩
      rw [(List.append_eq_nil_iff.mp heq.symm).2]
      exact Nat.zero_le _
  | append_singleton datagrams d ih =>
    rw [trailing_concat]
    constructor
    · intro h
      cases k with
      | zero => exact ⟨_, [], (List.append_nil _).symm, rfl, fun _ h => by cases h⟩
      | succ k =>
        split at h
        · obtain ⟨before, last, rfl, rfl, hlast⟩ := ih.mp (Nat.le_of_succ_le_succ h)
          refine ⟨before, last ++ [d], (List.append_assoc ..), by simp, fun x hx => ?_⟩
          rcases List.mem_append.mp hx with hx | hx
          · exact hlast x hx
          · rwa [List.mem_singleton.mp hx]
        · cases h
    · rintro ⟨before, last, heq, rfl, hlast⟩
      rcases List.eq_nil_or_concat last with rfl | ⟨last, x, rfl⟩
      · exact Nat.zero_le _
      · rw [List.concat_eq_append] at heq hlast ⊢
        rw [← List.append_assoc] at heq
        obtain ⟨hsplit, hd⟩ := List.append_inj' heq rfl
        cases hd
        rw [if_pos (hlast d (by simp)), List.length_append]
        refine Nat.succ_le_succ (ih.mpr ⟨before, last, hsplit, rfl, fun x hx => ?_⟩)
        exact hlast x (List.mem_append_left _ hx)

theorem lastTenMalformed_iff {datagrams : List (List UInt8)} :
    LastTenMalformed datagrams ↔ kMalformedStormThreshold ≤ trailing datagrams :=
  le_trailing_iff.symm

/-- A session adds at most as many as it has itself. -/
theorem trailing_append (before datagrams : List (List UInt8)) :
    trailing datagrams ≤ trailing (before ++ datagrams) := by
  induction datagrams using List.reverseRecOn with
  | nil => exact Nat.zero_le _
  | append_singleton datagrams d ih =>
    rw [← List.append_assoc, trailing_concat, trailing_concat]
    split
    · exact Nat.succ_le_succ ih
    · exact Nat.le_refl _

/-- The datagrams that a worker has looked at, in the sessions before the present one and in it. -/
structure Intake where
  earlier : List (List UInt8) := []
  session : List (List UInt8) := []

/-- All datagrams of a run. -/
def Intake.run (g : Intake) : List (List UInt8) := g.earlier ++ g.session

/-- The ghost: a session looks at what was received, unless a stop is requested. An empty
datagram is not told from an expired wait. -/
def intake (g : Intake) (w : World D) : RunPc D → Intake
  | .top => if w.impl.stopping || w.impl.faulted then g else { earlier := g.run }
  | .session (.received datagram) =>
    if w.impl.stopping || datagram = [] then g
    else { g with session := g.session ++ [datagram] }
  | _ => g

def updateIntake (g : Nat → Intake) (w : World D) : Action D → Nat → Intake
  | .run n _ => Function.update g n (intake (g n) w (w.workers n).pc)
  | _ => g

/-- No malformed datagram is the first one of a session after earlier sessions of the run whose last
datagram was malformed. -/
def Cleared (s : World D × (Nat → Intake)) : Action D → Prop
  | .run n _ => ∀ datagram, (s.1.workers n).pc = .session (.received datagram) →
    s.1.impl.stopping = false → malformed datagram = true → (s.2 n).session = [] →
    ∀ last ∈ (s.2 n).earlier.getLast?, malformed last = false
  | _ => True

/-- The counter, by the position of the worker: it counts the datagrams of the run. -/
def Tallied (count : Nat) (g : Intake) : RunPc D → Prop
  | .session .malformed => trailing g.run = count + 1
  | .session (.stamp _) | .session (.valid ..) => trailing g.run = 0
  | .session _ => trailing g.run = count ∧ trailing g.session < kMalformedStormThreshold
  | _ => trailing g.run = count

/-- As far as the session has received datagrams, the end of the run is its end. -/
def Intake.Own (g : Intake) : Prop := g.session ≠ [] → trailing g.run = trailing g.session

theorem Intake.session_le (g : Intake) : trailing g.session ≤ trailing g.run :=
  trailing_append ..

theorem Intake.run_concat (g : Intake) (datagram : List UInt8) :
    trailing ({ g with session := g.session ++ [datagram] } : Intake).run =
      if malformed datagram then trailing g.run + 1 else 0 := by
  rw [Intake.run, ← List.append_assoc, trailing_concat]
  rfl

variable {config : Config D} {w w' : World D} {t : Tid} {n : Nat} {c : Choice D}
  {worker : Worker D} {r : RunNext D} {g : Intake}

theorem recordNext_tallied [Double D] {p : RecordPc D}
    (hnext : recordNext config w n c worker p = some r)
    (h : trailing g.run = w.impl.consecutiveMalformed ∧
      trailing g.session < kMalformedStormThreshold) :
    Tallied r.impl.consecutiveMalformed g r.worker.pc := by
  have hafter : ∀ {i : Impl D} {outcome events},
      i.consecutiveMalformed = w.impl.consecutiveMalformed →
      Tallied (afterRecord i worker n outcome events).impl.consecutiveMalformed g
        (afterRecord i worker n outcome events).worker.pc := by
    intro i outcome events hi
    rw [afterRecord_impl, hi]
    cases outcome with
    | none => exact h
    | some result => exact h.1
  cases p with
  | account record receivedAt rdt ft =>
    simp only [recordNext] at hnext
    split at hnext
    · cases hnext; exact h.1
    · obtain ⟨-, rfl, -⟩ := account_some ‹_›
      split at hnext <;> cases hnext
      · exact hafter rfl
      · exact h
  | _ =>
    simp only [recordNext] at hnext
    (repeat' split at hnext) <;> cases hnext <;> first | exact hafter rfl | exact h

theorem applyConfiguration_consecutiveMalformed [DecidableEq D] {i : Impl D}
    (configuration : SensorConfiguration D) :
    (i.applyConfiguration configuration).consecutiveMalformed = i.consecutiveMalformed := by
  unfold Impl.applyConfiguration
  split
  · split <;> rfl
  · rfl

/-- Ten malformed datagrams in a row are seen in one position only. -/
theorem Tallied.malformed {count : Nat} {q : SessionPc D} (h : Tallied count g (.session q))
    (hten : LastTenMalformed g.session) :
    q = .malformed ∧ kMalformedStormThreshold ≤ count + 1 := by
  have hle := lastTenMalformed_iff.mp hten
  have hrun := Nat.le_trans hle g.session_le
  cases q with
  | malformed => exact ⟨rfl, h ▸ hrun⟩
  | stamp | valid =>
    rw [show trailing g.run = 0 from h] at hrun
    exact absurd hrun (by decide)
  | _ => exact absurd h.2 (Nat.not_lt.mpr hle)

theorem Ends.storm {p : RunPc D} (h : Ends w p .malformedStorm) : p = .session .malformed := by
  cases h with
  | malformedStorm => rfl
  | record q hresult => cases hresult

section
variable [DecidableEq D] [Double D]

theorem sessionNext_tallied {p : SessionPc D} (hnext : sessionNext config w n c worker p = some r)
    (h : Tallied w.impl.consecutiveMalformed g (.session p)) :
    Tallied r.impl.consecutiveMalformed (intake g w (.session p)) r.worker.pc := by
  cases p with
  | record q => exact recordNext_tallied hnext h
  | apply configuration =>
    cases hnext
    rw [applyConfiguration_consecutiveMalformed]
    exact h
  | received datagram =>
    simp only [sessionNext] at hnext
    split at hnext
    · rename_i hstop
      cases hnext
      simp only [intake, hstop, Bool.true_or, if_true]
      exact h.1
    rename_i hstop
    have hstop : w.impl.stopping = false := eq_false_of_ne_true hstop
    split at hnext
    · rename_i hempty
      cases hnext
      simp only [intake, hempty, Bool.or_true, if_true, decide_true]
      exact h
    rename_i hne
    simp only [intake, hstop, hne, Bool.or_false, decide_false, Bool.false_eq_true, if_false]
    split at hnext <;> cases hnext
    · have hlen := decodeRecord_none ‹_›
      show trailing _ = _
      rw [Intake.run_concat, if_pos (by simp [malformed, hne, hlen]), h.1]
    · have hlen := decodeRecord_some ‹_›
      show trailing _ = _
      rw [Intake.run_concat, if_neg (by simp [malformed, hlen])]
  | malformed =>
    simp only [sessionNext] at hnext
    split at hnext <;> cases hnext
    · exact h
    · have hlt := Nat.lt_of_not_le ‹_›
      exact ⟨h, Nat.lt_of_le_of_lt (g.session_le.trans (Nat.le_of_eq h)) hlt⟩
  | stamp record => cases hnext; exact h
  | valid record receivedAt =>
    simp only [sessionNext] at hnext
    split at hnext <;> cases hnext
    · exact h
    · have hle := g.session_le.trans (Nat.le_of_eq h)
      exact ⟨h, Nat.lt_of_le_of_lt hle (by decide)⟩
  | pollCheck =>
    cases hnext
    dsimp only
    split <;> exact h
  | _ =>
    simp only [sessionNext] at hnext
    (repeat' split at hnext) <;> cases hnext <;> first | exact h | exact h.1

theorem runNext_tallied {p : RunPc D} (hnext : runNext config w n c worker p = some r)
    (h : Tallied w.impl.consecutiveMalformed g p) :
    Tallied r.impl.consecutiveMalformed (intake g w p) r.worker.pc := by
  cases p with
  | session q => exact sessionNext_tallied hnext h
  | top =>
    simp only [runNext] at hnext
    split at hnext <;> rename_i hover <;> cases hnext
    · simp only [intake, hover, if_true]
      exact h
    · simp only [intake, hover, Bool.false_eq_true, if_false]
      refine ⟨?_, show 0 < kMalformedStormThreshold by decide⟩
      rw [Intake.run, List.append_nil]
      exact h
  | closeTransport context => cases hnext; cases context <;> exact h
  | raised message | finalFaulted =>
    cases hnext
    dsimp only
    split <;> exact h
  | publish code message =>
    cases hnext
    have hsame : (w.impl.publish code message).consecutiveMalformed =
        w.impl.consecutiveMalformed := by
      unfold Impl.publish
      split <;> rfl
    dsimp only
    rw [hsame]
    exact h
  | _ =>
    simp only [runNext] at hnext
    (repeat' split at hnext) <;> cases hnext <;> exact h

omit [DecidableEq D] [Double D] in
/-- The only datagram that could be counted on a value from before the session is its first. -/
theorem Intake.Own.next {p : RunPc D} (h : g.Own)
    (hok : ∀ datagram, p = .session (.received datagram) → w.impl.stopping = false →
      malformed datagram = true → g.session = [] →
      ∀ last ∈ g.earlier.getLast?, malformed last = false) : (intake g w p).Own := by
  cases p with
  | top =>
    simp only [intake]
    split
    · exact h
    · intro hne
      exact absurd rfl hne
  | session q =>
    cases q with
    | received datagram =>
      simp only [intake]
      split
      · exact h
      rename_i hlooks
      have hstop : w.impl.stopping = false := by
        cases hstop : w.impl.stopping <;> simp_all
      intro _
      rw [Intake.run_concat, trailing_concat]
      by_cases hbad : malformed datagram = true
      · rw [if_pos hbad, if_pos hbad]
        by_cases hfirst : g.session = []
        · have hzero : trailing g.earlier = 0 := by
            rcases List.eq_nil_or_concat g.earlier with hnil | ⟨before, last, hlast⟩
            · rw [hnil]
              rfl
            · rw [List.concat_eq_append] at hlast
              have hclear := hok datagram rfl hstop hbad hfirst last (by simp [hlast])
              rw [hlast, trailing_concat, hclear]
              rfl
          rw [Intake.run, hfirst, List.append_nil, hzero]
          rfl
        · rw [h hfirst]
      · rw [if_neg hbad, if_neg hbad]
    | _ => exact h
  | _ => exact h

theorem malformedNext_storm (hnext : sessionNext config w n c worker .malformed = some r)
    (hle : kMalformedStormThreshold ≤ w.impl.consecutiveMalformed + 1) :
    ∃ outcome, outcome.result = .malformedStorm ∧ r.events = [.sessionEnded n outcome] := by
  simp only [sessionNext, Impl.countMalformed, ge_iff_le, hle, if_true] at hnext
  cases hnext
  exact ⟨_, rfl, rfl⟩

/-- Sessions end in their own positions. -/
theorem session_of_closing {p : RunPc D} {outcome : SessionOutcome}
    (hnext : runNext config w n c worker p = some r)
    (hpc : r.worker.pc = .close (.session outcome)) : ∃ q, p = .session q := by
  cases p with
  | session q => exact ⟨q, rfl⟩
  | closeTransport context => cases hnext; cases context <;> cases hpc
  | raised message | finalFaulted =>
    cases hnext
    dsimp only at hpc
    split at hpc <;> cases hpc
  | _ =>
    simp only [runNext] at hnext
    (repeat' split at hnext) <;> cases hnext <;> cases hpc

/-- The session that ends is a storm exactly when the last ten datagrams are malformed. -/
theorem sessionEnded_storm {p : RunPc D} {outcome : SessionOutcome}
    (hnext : runNext config w n c worker p = some r)
    (hp : ∀ result, p.recordOutcome = some result → result.ofRecord = true)
    (h : Tallied w.impl.consecutiveMalformed g p) (hown : g.Own)
    (hlooked : p = .session .malformed → g.session ≠ [])
    (he : .sessionEnded n outcome ∈ r.events) :
    outcome.result = .malformedStorm ↔ LastTenMalformed (intake g w p).session := by
  obtain ⟨-, hpc, hends⟩ := runNext_ended hnext hp he
  obtain ⟨q, rfl⟩ := session_of_closing hnext hpc
  by_cases hq : q = .malformed
  · subst hq
    have hcount : trailing g.session = w.impl.consecutiveMalformed + 1 :=
      (hown (hlooked rfl)).symm.trans h
    rw [lastTenMalformed_iff, show (intake g w (.session .malformed)).session = g.session from rfl,
      hcount]
    simp only [runNext, sessionNext] at hnext
    split at hnext <;> cases hnext
    · cases List.mem_singleton.mp he
      exact ⟨fun _ => ‹_›, fun _ => rfl⟩
    · simp at he
  · constructor
    · intro hstorm
      exact absurd (RunPc.session.inj (hstorm ▸ hends).storm) hq
    · intro hten
      have hsame : (intake g w (.session q)).session = g.session := by
        cases q with
        | received datagram =>
          simp only [intake]
          split
          · rfl
          · -- a session that looks at a datagram does not end with that step
            rename_i hlooks
            simp only [runNext, sessionNext] at hnext
            (repeat' split at hnext) <;> cases hnext <;> simp_all
        | _ => rfl
      rw [hsame] at hten
      exact absurd (h.malformed hten).1 hq

end

/-! ## Runs -/

/-- The facts about one worker that hold in every run. -/
structure World.tallied (w : World D) (g : Nat → Intake) (n : Nat) : Prop where
  created : w.created ≤ n → g n = {}
  counts : w.executing n → Tallied w.impl.consecutiveMalformed (g n) (w.workers n).pc
  own : (g n).Own
  looked : (w.workers n).pc = .session .malformed → (g n).session ≠ []

section
variable [DecidableEq D] [Double D]

/-- The client, with the ghost of the datagrams its workers look at. -/
def intakeMachine (config : Config D) : Machine (World D × (Nat → Intake)) (Action D) (Event D) :=
  (machine config).withGhost updateIntake

/-- The position after a malformed datagram. -/
theorem runNext_looked {p : RunPc D} (hnext : runNext config w n c worker p = some r)
    (hr : r.worker.pc = .session .malformed) : (intake g w p).session ≠ [] := by
  cases p with
  | session q =>
    cases q with
    | received datagram =>
      simp only [runNext, sessionNext] at hnext
      split at hnext
      · cases hnext; cases hr
      split at hnext
      · cases hnext; cases hr
      · simp_all [intake]
    | pollCheck =>
      cases hnext
      dsimp only at hr
      split at hr <;> cases hr
    | record q =>
      rcases recordNext_pc hnext with ⟨_, h⟩ | h | ⟨_, h⟩ | ⟨_, h⟩ <;> rw [h] at hr <;> cases hr
    | _ =>
      simp only [runNext, sessionNext] at hnext
      (repeat' split at hnext) <;> cases hnext <;> cases hr
  | closeTransport context => cases hnext; cases context <;> cases hr
  | raised message | finalFaulted =>
    cases hnext
    dsimp only at hr
    split at hr <;> cases hr
  | _ =>
    simp only [runNext] at hnext
    (repeat' split at hnext) <;> cases hnext <;> cases hr

theorem World.tallied.run {g : Nat → Intake} (h : w.tallied g n) (ho : Orderly w)
    {r : RunNext D} (hnext : runNext config w k c (w.workers k) (w.workers k).pc = some r)
    (hok : Cleared (w, g) (.run k c)) :
    (w.applyRun k r).tallied (updateIntake g w (.run k c)) n := by
  have hrun := executing_of_next hnext
  by_cases hn : n = k
  · subst hn
    have hlast := ho.life.last_of_executing hrun
    have hworker : (w.applyRun n r).workers n = r.worker := Function.update_self ..
    constructor
    · intro hle
      rw [World.applyRun_created] at hle
      exact absurd hle (by omega)
    · intro _
      simp only [updateIntake, Function.update_self, World.applyRun_impl, hworker]
      exact runNext_tallied hnext (h.counts hrun)
    · simp only [updateIntake, Function.update_self]
      exact h.own.next hok
    · simp only [updateIntake, Function.update_self, hworker]
      exact runNext_looked hnext
  · have hworker : (w.applyRun k r).workers n = w.workers n := Function.update_of_ne hn ..
    have hg : updateIntake g w (.run k c) n = g n := Function.update_of_ne hn ..
    constructor
    · rw [World.applyRun_created, hg]
      exact h.created
    · intro hexec
      rw [World.executing, hworker] at hexec
      exact absurd (ho.executing_unique hrun hexec) hn
    · rw [hg]
      exact h.own
    · rw [hg, hworker]
      exact h.looked

/-- A worker that is created finds the counter reset. -/
theorem World.tallied.api {g : Nat → Intake} (h : w.tallied g n) (hr : Reachable config w l)
    {r : ApiNext D} (hnext : apiNext w t c (w.api t) = some r) :
    (w.applyApi config t r).tallied g n := by
  have ho := hr.orderly
  refine ⟨fun hle => h.created (Nat.le_trans (created_le_applyApi ..) hle), fun hexec => ?_,
    h.own, fun hpc => ?_⟩
  · rcases ho.applyApi_worker config t r n with hworker | ⟨hunborn, htop⟩
    · rw [World.executing, hworker] at hexec
      rw [World.applyApi_impl, hworker, (ho.apiNext_runData hnext hexec).consecutiveMalformed]
      exact h.counts hexec
    · have hfresh := (hr.launch.created hnext hunborn htop).1
      have hnone := h.created (created_of_spawned hunborn htop).ge
      rw [htop, World.applyApi_impl]
      show trailing (g n).run = _
      rw [hnone, hfresh.consecutiveMalformed]
      rfl
  · rcases ho.applyApi_worker config t r n with hworker | ⟨-, htop⟩
    · rw [hworker] at hpc
      exact h.looked hpc
    · rw [htop] at hpc
      cases hpc

theorem tallied_of_run {v : World D × (Nat → Intake)}
    (h : (intakeMachine config).RunIf Cleared (World.initial clock, fun _ => {}) l v) :
    Reachable config v.1 l ∧ ∀ n, v.1.tallied v.2 n := by
  have hreach : ∀ {v k}, (intakeMachine config).Run (World.initial clock, fun _ => {}) k v →
      Reachable config v.1 k := fun hv => ⟨clock, hv.eraseGhost⟩
  refine ⟨hreach h.run, h.invariant (I := fun v _ => ∀ n, v.1.tallied v.2 n) ?_ ?_⟩
  · exact fun n => ⟨fun _ => rfl, (fun h => by cases h), fun hne => absurd rfl hne,
      fun h => by cases h⟩
  · rintro ⟨v, g⟩ k a ⟨v', g'⟩ k' hv hi hok hstep n
    obtain ⟨hbase, rfl⟩ := Machine.withGhost_step.mp hstep
    have hbase : step config v a = some (v', k') := hbase
    have hi : v.tallied g n := hi n
    have hr : Reachable config v k := hreach hv
    show v'.tallied (updateIntake g v a) n
    cases a with
    | run m c =>
      obtain ⟨r, hnext, -, rfl, -⟩ := step_run hbase
      exact hi.run hr.orderly hnext hok
    | api t c =>
      obtain ⟨r, hnext, -, rfl, -⟩ := step_api hbase
      exact hi.api hr hnext
    | call t call =>
      simp only [step] at hbase
      (repeat' split at hbase) <;> cases hbase
      exact ⟨hi.created, hi.counts, hi.own, hi.looked⟩
    | tick | spurious =>
      cases hbase
      exact ⟨hi.created, hi.counts, hi.own, hi.looked⟩

/-- In every run in which no session begins with a malformed datagram after an earlier one of the
same worker has ended with one: a session ends as a malformed storm exactly when the last ten
datagrams it has looked at are malformed, and it does so at once. -/
theorem malformed_storm_iff_last_ten {g : Nat → Intake}
    (h : (intakeMachine config).RunIf Cleared (World.initial clock, fun _ => {}) l (w, g)) :
    (∀ a w' g' l' n outcome, (intakeMachine config).step (w, g) a = some ((w', g'), l') →
      .sessionEnded n outcome ∈ l' →
      (outcome.result = .malformedStorm ↔ LastTenMalformed (g' n).session)) ∧
    ∀ n q, (w.workers n).pc = .session q → LastTenMalformed (g n).session →
      q = .malformed ∧ ∀ c w' l', step config w (.run n c) = some (w', l') →
        ∃ outcome, outcome.result = .malformedStorm ∧ l' = [.sessionEnded n outcome] := by
  obtain ⟨hreach, htallied⟩ := tallied_of_run h
  refine ⟨fun a w' g' l' n outcome hstep he => ?_, fun n q hq hten => ?_⟩
  · obtain ⟨hbase, rfl⟩ := Machine.withGhost_step.mp hstep
    have hbase : step config w a = some (w', l') := hbase
    obtain ⟨m, c, rfl⟩ := run_of_event hbase he rfl rfl
    obtain ⟨r, hnext, -, rfl, rfl⟩ := step_run hbase
    obtain ⟨rfl, -, -⟩ := runNext_ended hnext (hreach.recordOutcomes m) he
    have hbefore := htallied n
    simp only [updateIntake, Function.update_self]
    exact sessionEnded_storm hnext (hreach.recordOutcomes n)
      (hbefore.counts (executing_of_next hnext)) hbefore.own hbefore.looked he
  · have hexec : w.executing n := by rw [World.executing, hq]; rfl
    have hbefore := (htallied n).counts hexec
    rw [hq] at hbefore
    obtain ⟨rfl, hle⟩ := hbefore.malformed hten
    refine ⟨rfl, fun c w' l' hstep => ?_⟩
    obtain ⟨r, hnext, -, -, rfl⟩ := step_run hstep
    rw [hq] at hnext
    have hnext : sessionNext config w n c (w.workers n) .malformed = some r := hnext
    exact malformedNext_storm hnext hle

end

/-! ### Two runs -/

/-- A client that reconnects: nine malformed datagrams, and nothing until the timeout; in the next
session one malformed datagram, up to its count. -/
def carriedStorm : (World Rat × (Nat → Intake)) × List (Event Rat) :=
  (intakeMachine (demoConfig .reconnect)).perform (World.initial 1, fun _ => {})
    (startActions (.client 0) ++ openActions 0 ++
      (List.replicate 9 (datagramActions 0 [1, 2])).flatten ++
      [.tick 1000000000] ++ List.replicate 3 (.run 0 .go) ++ [.run 0 .succeeds] ++
      List.replicate 5 (.run 0 .go) ++ [.tick 1000000000, .run 0 .go] ++ openActions 0 ++
      (datagramActions 0 [1, 2]).dropLast)

def endedByCarriedStorm : (World Rat × (Nat → Intake)) × List (Event Rat) :=
  (intakeMachine (demoConfig .reconnect)).perform carriedStorm.1 [.run 0 .go]

/-- The session ends as a malformed storm after a single datagram. -/
theorem storm_after_one_datagram :
    (intakeMachine (demoConfig .reconnect)).Run (World.initial 1, fun _ => {}) carriedStorm.2
        carriedStorm.1 ∧
      (intakeMachine (demoConfig .reconnect)).step carriedStorm.1 (.run 0 .go) =
        some endedByCarriedStorm ∧
      .sessionEnded 0 ⟨.malformedStorm, "", false⟩ ∈ endedByCarriedStorm.2 ∧
      (endedByCarriedStorm.1.2 0).session = [[1, 2]] ∧
      ¬ LastTenMalformed (endedByCarriedStorm.1.2 0).session := by
  have hdatagrams : (endedByCarriedStorm.1.2 0).session = [[1, 2]] := by decide +kernel
  refine ⟨Machine.run_perform (by decide +kernel), Machine.step_perform (by decide +kernel),
    by decide +kernel, hdatagrams, ?_⟩
  rw [hdatagrams, lastTenMalformed_iff]
  decide

/-- A test for `Cleared`. -/
def cleared (s : World Rat × (Nat → Intake)) : Action Rat → Bool
  | .run n _ =>
    match (s.1.workers n).pc with
    | .session (.received datagram) =>
      s.1.impl.stopping || !malformed datagram || !(s.2 n).session.isEmpty ||
        (s.2 n).earlier.getLast?.all fun last => !malformed last
    | _ => true
  | _ => true

theorem cleared_of_test {s : World Rat × (Nat → Intake)} {a : Action Rat}
    (h : cleared s a = true) : Cleared s a := by
  cases a with
  | run n c =>
    intro datagram hpc hstop hbad hfirst
    simpa [cleared, hpc, hstop, hbad, hfirst, Option.all_eq_true] using h
  | _ => trivial

/-- A client that reconnects: a malformed datagram, and nothing until the timeout; a session that
cannot connect; and one with a record and ten malformed datagrams, up to the count of the last. -/
def tenMalformed : (World Rat × (Nat → Intake)) × List (Event Rat) :=
  (intakeMachine (demoConfig .reconnect)).perform (World.initial 1, fun _ => {})
    (startActions (.client 0) ++ openActions 0 ++ datagramActions 0 [1, 2] ++
      [.tick 1000000000] ++ List.replicate 3 (.run 0 .go) ++ [.run 0 .succeeds] ++
      List.replicate 5 (.run 0 .go) ++ [.tick 1000000000, .run 0 .go] ++
      List.replicate 6 (.run 0 .go) ++ .run 0 (.fails "") :: List.replicate 7 (.run 0 .go) ++
      [.tick 1000000000, .run 0 .go] ++ openActions 0 ++ receiveActions 0 (plainRecord 1 1) ++
      (List.replicate 10 (datagramActions 0 [1, 2])).flatten.dropLast)

def endedByTenMalformed : (World Rat × (Nat → Intake)) × List (Event Rat) :=
  (intakeMachine (demoConfig .reconnect)).perform tenMalformed.1 [.run 0 .go]

theorem malformed_storm_iff_last_ten_tenMalformed :
    (tenMalformed.1.2 0).earlier = [[1, 2]] ∧
      .sessionEnded 0 ⟨.malformedStorm, "", true⟩ ∈ endedByTenMalformed.2 ∧
      LastTenMalformed (endedByTenMalformed.1.2 0).session := by
  have hrun : (intakeMachine (demoConfig .reconnect)).RunIf Cleared (World.initial 1, fun _ => {})
      tenMalformed.2 (tenMalformed.1.1, tenMalformed.1.2) :=
    Machine.runIf_perform cleared (by decide +kernel) fun _ _ => cleared_of_test
  have hstep : (intakeMachine (demoConfig .reconnect)).step (tenMalformed.1.1, tenMalformed.1.2)
      (.run 0 .go) = some ((endedByTenMalformed.1.1, endedByTenMalformed.1.2),
        endedByTenMalformed.2) := Machine.step_perform (by decide +kernel)
  have hevent : .sessionEnded 0 ⟨.malformedStorm, "", true⟩ ∈ endedByTenMalformed.2 := by
    decide +kernel
  refine ⟨by decide +kernel, hevent, ?_⟩
  exact ((malformed_storm_iff_last_ten hrun).1 _ _ _ _ 0 _ hstep hevent).mp rfl

end NetFT.Client
