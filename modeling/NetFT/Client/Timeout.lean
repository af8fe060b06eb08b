import Mathlib.Data.Rat.Floor
import NetFT.Client.Outcomes
import NetFT.Library.FloatingPoint

/-! The receive timeout of a session. A ghost beside the client keeps, for each worker, the
instant its deadline counts from, the earliest end of the `poll` in progress and the datagrams
that were not records. The deadline is `receive_timeout` after that instant at every position of
the receive loop, and the loop reports a timeout only when it has passed. -/

namespace NetFT.Client
open Detail Library

variable {D : Type}

/-- `std::numeric_limits<int>::max()`. -/
def intMax : Nat := 2147483647

def ticksPerMillisecond : Nat := 1000000

/-- The nearest `double`. -/
def toDouble (x : Rat) : Rat := binary64.round .nearestEven x

/-- `std::chrono::duration<double>` of a number of ticks. -/
def durationSeconds (ticks : Nat) : Rat := toDouble (toDouble ticks / ticksPerSecond)

/-- `timeout.count() * 1000.0` -/
def durationMilliseconds (ticks : Nat) : Rat := toDouble (durationSeconds ticks * 1000)

/-- `timeout_milliseconds`: the argument of `poll` for a time left of `remaining` ticks. -/
def timeoutMilliseconds (remaining : Nat) : Nat :=
  min ⌈durationMilliseconds remaining⌉₊ intMax

/-- What happened to a worker while it was receiving. -/
structure Reception where
  /-- The later of the start of receiving and the last valid record. -/
  since : TimePoint := 0
  /-- The `poll` in progress does not expire before. -/
  pollEnd : TimePoint := 0
  /-- `malformed_count` when the session began. -/
  malformedBefore : Nat := 0
  /-- The datagrams of the session that were not 36 bytes long. -/
  strays : Nat := 0

def Reception.update (g : Reception) (w : World D) (c : Choice D) : RunPc D → Reception
  | .top => { g with malformedBefore := w.impl.health.malformedCount, strays := 0 }
  | .session .firstDeadline => { g with since := w.clock }
  | .session (.valid _ receivedAt) => { g with since := receivedAt }
  | .session (.receive remaining) =>
    { g with pollEnd := ticksPerMillisecond * timeoutMilliseconds remaining + w.clock }
  | .session .recv =>
    match c with
    | .datagram bytes => if bytes.length = 36 then g else { g with strays := g.strays + 1 }
    | _ => g
  | _ => g

def updateReceptions (g : Nat → Reception) (w : World D) : Action D → Nat → Reception
  | .run n c => Function.update g n ((g n).update w c (w.workers n).pc)
  | _ => g

/-- The operating system as the timeout relies on it: `poll` and `recv` do not fail and are not
interrupted, and `poll` does not expire early. -/
def Undisturbed (s : World D × (Nat → Reception)) : Action D → Prop
  | .run n c =>
    match (s.1.workers n).pc, c with
    | .session (.poll _), .expires => (s.2 n).pollEnd ≤ s.1.clock
    | .session (.poll _), .interrupted | .session (.poll _), .fails _ => False
    | .session .recv, .interrupted | .session .recv, .fails _ => False
    | _, _ => True
  | _ => True

/-- No datagram without content is received. -/
def NoEmptyDatagram (s : World D × (Nat → Reception)) : Action D → Prop
  | .run n (.datagram bytes) => (s.1.workers n).pc = .session .recv → bytes ≠ []
  | _ => True

/-! ## The deadline -/

/-- The deadline counts from an instant that has passed. -/
def Origin (config : Config D) (clock : TimePoint) (g : Reception) (deadline : TimePoint) : Prop :=
  g.since ≤ clock ∧ checkedDeadline g.since config.receiveTimeout = some deadline

/-- What the position of a worker says about its deadline. -/
def Timely (config : Config D) (clock : TimePoint) (stopping : Bool) (g : Reception)
    (deadline : TimePoint) : RunPc D → Prop
  | .session .loop | .session .now | .session .pollCheck | .session .recv | .session .malformed
  | .session (.stamp _) | .session (.record _) => Origin config clock g deadline
  | .session (.receive remaining) =>
    Origin config clock g deadline ∧ deadline ≤ clock + remaining ∧ g.since + remaining ≤ deadline
  | .session (.poll _) => Origin config clock g deadline ∧ deadline ≤ g.pollEnd
  | .session .timedOut => Origin config clock g deadline ∧ deadline ≤ clock
  | .session (.received datagram) =>
    Origin config clock g deadline ∧ (datagram = [] → stopping = true ∨ deadline ≤ clock)
  | .session (.valid _ receivedAt) => Origin config clock g deadline ∧ receivedAt ≤ clock
  | _ => True

variable {config : Config D} {w w' : World D} {t : Tid} {n : Nat} {c : Choice D}
  {worker : Worker D} {r : RunNext D} {g : Reception} {deadline : TimePoint}

theorem Origin.later {clock clock' : TimePoint} (h : Origin config clock g deadline)
    (hle : clock ≤ clock') : Origin config clock' g deadline :=
  ⟨Nat.le_trans h.1 hle, h.2⟩

/-- The positions of the receive loop. -/
def RunPc.receiving : RunPc D → Bool
  | .session .loop | .session .now | .session .timedOut | .session (.receive _)
  | .session (.poll _) | .session .pollCheck | .session .recv | .session (.received _)
  | .session .malformed | .session (.stamp _) | .session (.valid ..) | .session (.record _) => true
  | _ => false

theorem Timely.origin {clock : TimePoint} {stopping : Bool} {p : RunPc D}
    (h : Timely config clock stopping g deadline p) (hp : p.receiving = true) :
    Origin config clock g deadline := by
  cases p with
  | session p =>
    cases p with
    | loop | now | pollCheck | recv | malformed | stamp | record => exact h
    | receive | poll | timedOut | received | valid => exact h.1
    | _ => cases hp
  | _ => cases hp

/-- Time passes, and a stop may be requested. -/
theorem Timely.later {clock clock' : TimePoint} {stopping stopping' : Bool} {p : RunPc D}
    (h : Timely config clock stopping g deadline p) (hle : clock ≤ clock')
    (hstop : stopping = true → stopping' = true) : Timely config clock' stopping' g deadline p := by
  cases p with
  | session p =>
    cases p with
    | loop | now | pollCheck | recv | malformed | stamp | record => exact Origin.later h hle
    | receive remaining =>
      exact ⟨h.1.later hle, Nat.le_trans h.2.1 (Nat.add_le_add_right hle remaining), h.2.2⟩
    | poll => exact ⟨h.1.later hle, h.2⟩
    | timedOut | valid => exact ⟨h.1.later hle, Nat.le_trans h.2 hle⟩
    | received datagram =>
      exact ⟨h.1.later hle, fun he => (h.2 he).imp hstop fun hd => Nat.le_trans hd hle⟩
    | _ => trivial
  | _ => trivial

/-! ### The argument of `poll` -/

theorem abs_toDouble_sub_le {x : Rat} (h : 1 / ticksPerSecond ≤ x) :
    |toDouble x - x| ≤ x / 2 ^ 53 :=
  FloatFormat.abs_round_sub_le <| by
    calc (2 : Rat) ^ (binary64.precision - 1 + binary64.minExponent : Int)
        ≤ 2 ^ (-30 : Int) := zpow_le_zpow_right₀ (by norm_num) (by decide)
      _ ≤ 1 / ticksPerSecond := by norm_num [ticksPerSecond]
      _ ≤ x := h

/-- The two roundings after a number of ticks that is exact in `double`. -/
theorem abs_durationMilliseconds_sub_le (ticks : Nat) (h : ticks < 2 ^ 53) :
    |durationMilliseconds ticks - ticks / ticksPerMillisecond| ≤
      ticks / ticksPerMillisecond / 2 ^ 51 := by
  have hexact : toDouble (ticks : Rat) = ticks :=
    FloatFormat.round_of_mem (FloatFormat.natCast_mem_grid (by decide) h)
  rcases Nat.eq_zero_or_pos ticks with rfl | hpos
  · decide +kernel
  have hone : (1 : Rat) ≤ ticks := by exact_mod_cast hpos
  have hseconds := abs_le.mp (abs_toDouble_sub_le (x := ticks / ticksPerSecond) (by
    norm_num [ticksPerSecond]
    linarith))
  have hlow : 1 / ticksPerSecond ≤ durationSeconds ticks * 1000 := by
    rw [durationSeconds, hexact]
    norm_num [ticksPerSecond] at hseconds ⊢
    linarith
  have hmilliseconds := abs_le.mp (abs_toDouble_sub_le hlow)
  rw [durationSeconds, hexact] at hmilliseconds
  rw [durationMilliseconds, durationSeconds, hexact, abs_le]
  norm_num [ticksPerSecond, ticksPerMillisecond] at hseconds hmilliseconds ⊢
  constructor <;> linarith

/-- In the range of `poll` the roundings are less than a tick off. -/
theorem durationMilliseconds_near {ticks : Nat} (h : ticks ≤ intMax * ticksPerMillisecond) :
    |durationMilliseconds ticks * ticksPerMillisecond - ticks| < 1 := by
  have hticks : (ticks : Rat) ≤ 2147483647000000 := by exact_mod_cast h
  have hnonneg : (0 : Rat) ≤ ticks := by positivity
  have hnear := abs_le.mp (abs_durationMilliseconds_sub_le ticks
    (lt_of_le_of_lt h (by decide)))
  rw [abs_lt]
  norm_num [ticksPerMillisecond] at hnear ⊢
  constructor <;> linarith

/-- The wait of `poll` covers the time left. -/
theorem le_timeoutMilliseconds {remaining : Nat}
    (h : remaining ≤ intMax * ticksPerMillisecond) :
    remaining ≤ ticksPerMillisecond * timeoutMilliseconds remaining := by
  unfold timeoutMilliseconds
  rcases Nat.le_total ⌈durationMilliseconds remaining⌉₊ intMax with hle | hle
  · rw [Nat.min_eq_left hle]
    have hnear := abs_lt.mp (durationMilliseconds_near h)
    have hceil := Nat.le_ceil (durationMilliseconds remaining)
    have hlt : (remaining : Rat) <
        ((ticksPerMillisecond * ⌈durationMilliseconds remaining⌉₊ + 1 : Nat) : Rat) := by
      push_cast
      norm_num [ticksPerMillisecond] at hnear ⊢
      linarith
    exact Nat.lt_succ_iff.mp (by exact_mod_cast hlt)
  · rwa [Nat.min_eq_right hle, Nat.mul_comm]

/-- The wait of `poll` exceeds the time left by at most a millisecond. -/
theorem timeoutMilliseconds_le (remaining : Nat) :
    ticksPerMillisecond * timeoutMilliseconds remaining ≤ ticksPerMillisecond + remaining := by
  rcases Nat.le_total remaining (intMax * ticksPerMillisecond) with hle | hle
  · have hnear := abs_lt.mp (durationMilliseconds_near hle)
    have hceil : (⌈durationMilliseconds remaining⌉₊ : Rat) < durationMilliseconds remaining + 1 := by
      refine Nat.ceil_lt_add_one_of_gt_neg_one ?_
      have hnonneg : (0 : Rat) ≤ remaining := by positivity
      norm_num [ticksPerMillisecond] at hnear
      linarith
    have hlt : ((ticksPerMillisecond * ⌈durationMilliseconds remaining⌉₊ : Nat) : Rat) <
        ((ticksPerMillisecond + remaining + 1 : Nat) : Rat) := by
      push_cast
      norm_num [ticksPerMillisecond] at hnear ⊢
      linarith
    have hlt : ticksPerMillisecond * ⌈durationMilliseconds remaining⌉₊ <
        ticksPerMillisecond + remaining + 1 := by exact_mod_cast hlt
    exact (Nat.mul_le_mul_left _ (Nat.min_le_left ..)).trans (Nat.lt_succ_iff.mp hlt)
  · have hmin : ticksPerMillisecond * timeoutMilliseconds remaining ≤
        intMax * ticksPerMillisecond := by
      rw [Nat.mul_comm]
      exact Nat.mul_le_mul_right _ (Nat.min_le_right ..)
    omega

-- two seconds and seven milliseconds
example : timeoutMilliseconds 2007000000 = 2008 := by decide +kernel

/-- Up to 50 ms it is the exact ceiling. -/
theorem timeoutMilliseconds_slice {remaining : Nat} (h : remaining ≤ 50 * ticksPerMillisecond) :
    timeoutMilliseconds remaining =
      (remaining + (ticksPerMillisecond - 1)) / ticksPerMillisecond := by
  have hwhole : ∀ n < 51, timeoutMilliseconds (n * ticksPerMillisecond) = n := by decide +kernel
  obtain ⟨n, k, hk, rfl⟩ : ∃ n k, k < ticksPerMillisecond ∧
      remaining = n * ticksPerMillisecond + k :=
    ⟨_, _, Nat.mod_lt _ (by decide), (Nat.div_add_mod' remaining ticksPerMillisecond).symm⟩
  simp only [ticksPerMillisecond] at h hk ⊢
  rcases Nat.eq_zero_or_pos k with rfl | hpos
  · rw [Nat.add_zero, show (n * 1000000 + (1000000 - 1)) / 1000000 = n by omega]
    exact hwhole n (by omega)
  -- the roundings do not reach the next millisecond
  have hnear := abs_le.mp (abs_durationMilliseconds_sub_le (n * 1000000 + k) (by omega))
  have hn : (n : Rat) ≤ 50 := by exact_mod_cast (by omega : n ≤ 50)
  have hone : (1 : Rat) ≤ k := by exact_mod_cast hpos
  have hlast : (k : Rat) ≤ 999999 := by exact_mod_cast (by omega : k ≤ 999999)
  norm_num [ticksPerMillisecond] at hnear
  have hceil : ⌈durationMilliseconds (n * 1000000 + k)⌉₊ = n + 1 := by
    rw [Nat.ceil_eq_iff (Nat.succ_ne_zero n)]
    push_cast
    constructor <;> linarith
  rw [timeoutMilliseconds, hceil, show (n * 1000000 + k + (1000000 - 1)) / 1000000 = n + 1 by omega]
  exact Nat.min_eq_left (by simp only [intMax]; omega)

theorem checkedDeadline_some {origin : TimePoint} {duration : Rat}
    (h : checkedDeadline origin duration = some deadline) :
    ∃ ticks, checkedDuration duration = some ticks ∧ deadline = origin + ticks := by
  unfold checkedDeadline at h
  split at h
  · cases h
  · split at h <;> cases h
    exact ⟨_, ‹_›, rfl⟩

/-- A timeout in the range of `poll` leaves a time in its range. -/
theorem checkedDuration_le {duration : Rat} {ticks : Nat} (hrange : duration * 1000 ≤ intMax)
    (h : checkedDuration duration = some ticks) : ticks ≤ intMax * ticksPerMillisecond := by
  unfold checkedDuration at h
  dsimp only at h
  split at h
  · cases h
  · cases h
    have hticks : duration * ticksPerSecond ≤ ((intMax * ticksPerMillisecond : Nat) : Int) := by
      simp only [ticksPerSecond, ticksPerMillisecond]
      push_cast
      linarith
    have hfloor := Rat.floor_monotone hticks
    rw [Rat.floor_intCast] at hfloor
    exact Int.toNat_le.mpr hfloor

theorem Origin.ticks {clock : TimePoint} (h : Origin config clock g deadline) :
    ∃ ticks, checkedDuration config.receiveTimeout = some ticks ∧ deadline = g.since + ticks :=
  checkedDeadline_some h.2

theorem timely_afterRecord {clock : TimePoint} {stopping : Bool} {i : Impl D}
    {outcome : Option SessionResult} {events : List (Event D)}
    (h : Origin config clock g worker.deadline) :
    Timely config clock stopping g (afterRecord i worker n outcome events).worker.deadline
      (afterRecord i worker n outcome events).worker.pc := by
  cases outcome with
  | none => exact h
  | some result => trivial

theorem recordNext_timely [Double D] {p : RecordPc D} {clock : TimePoint} {stopping : Bool}
    (hnext : recordNext config w n c worker p = some r)
    (h : Origin config clock g worker.deadline) :
    Timely config clock stopping g r.worker.deadline r.worker.pc := by
  cases p <;> simp only [recordNext] at hnext <;> (repeat' split at hnext) <;> cases hnext <;>
    first | exact timely_afterRecord h | exact h | trivial

section
variable [DecidableEq D] [Double D]

/-- What a step of the receive loop relies on. -/
structure Reliable (w : World D) (g : Reception) (c : Choice D) (p : SessionPc D) : Prop where
  expires : ∀ deadline, p = .poll deadline → c = .expires → g.pollEnd ≤ w.clock
  poll : ∀ deadline, p = .poll deadline → c ≠ .interrupted
  recv : p = .recv → c ≠ .interrupted ∧ c ≠ .datagram []
  shutdown : (p = .pollCheck ∨ ∃ remaining, p = .receive remaining) →
    w.impl.transport.shutdownRequested = true → w.impl.stopping = true

theorem sessionNext_timely {p : SessionPc D} (hrange : config.receiveTimeout * 1000 ≤ intMax)
    (hnext : sessionNext config w n c worker p = some r) (hok : Reliable w g c p)
    (h : Timely config w.clock w.impl.stopping g worker.deadline (.session p)) :
    Timely config w.clock w.impl.stopping (g.update w c (.session p)) r.worker.deadline
      r.worker.pc := by
  cases p with
  | firstDeadline =>
    simp only [sessionNext] at hnext
    split at hnext <;> cases hnext
    · trivial
    · exact ⟨Nat.le_refl _, ‹_›⟩
  | loop =>
    simp only [sessionNext] at hnext
    split at hnext <;> cases hnext
    · trivial
    · exact h
  | now =>
    simp only [sessionNext] at hnext
    split at hnext <;> cases hnext
    · exact ⟨h, ‹_›⟩
    · rename_i hlt
      have hlt : w.clock ≤ worker.deadline := Nat.le_of_lt (Nat.lt_of_not_le hlt)
      refine ⟨h, (Nat.add_sub_cancel' hlt).ge, ?_⟩
      exact Nat.le_trans (Nat.add_le_add_right h.1 _) (Nat.add_sub_cancel' hlt).le
  | receive remaining =>
    simp only [sessionNext] at hnext
    (repeat' split at hnext) <;> cases hnext
    · trivial
    · exact ⟨h.1, fun _ => .inl (hok.shutdown (.inr ⟨_, rfl⟩) ‹_›)⟩
    · trivial
    · obtain ⟨ticks, hticks, hdeadline⟩ := h.1.ticks
      have hle := checkedDuration_le hrange hticks
      have hrem : remaining ≤ ticks := Nat.le_of_add_le_add_left (hdeadline ▸ h.2.2)
      have hpoll := le_timeoutMilliseconds (Nat.le_trans hrem hle)
      refine ⟨h.1, Nat.le_trans h.2.1 ?_⟩
      rw [Nat.add_comm]
      exact Nat.add_le_add_right hpoll w.clock
  | poll pollDeadline =>
    simp only [sessionNext] at hnext
    split at hnext
    · cases hnext; exact h.1
    · cases hnext
      exact ⟨h.1, fun _ => .inr (Nat.le_trans h.2 (hok.expires _ rfl rfl))⟩
    · exact absurd rfl (hok.poll _ rfl)
    · cases hnext; trivial
    · cases hnext
  | pollCheck =>
    cases hnext
    dsimp only
    split
    · exact ⟨h, fun _ => .inl (hok.shutdown (.inl rfl) ‹_›)⟩
    · exact h
  | recv =>
    simp only [sessionNext] at hnext
    split at hnext
    · cases hnext
      simp only [Reception.update]
      have hne := (hok.recv rfl).2
      refine ⟨?_, fun he => absurd (by rw [he]) hne⟩
      split <;> exact h
    · exact absurd rfl (hok.recv rfl).1
    · cases hnext; trivial
    · cases hnext
  | received datagram =>
    simp only [sessionNext] at hnext
    (repeat' split at hnext) <;> cases hnext
    · trivial
    · rename_i hstop hempty
      exact ⟨h.1, (h.2 hempty).resolve_left hstop⟩
    · exact h.1
    · exact h.1
  | timedOut =>
    simp only [sessionNext] at hnext
    split at hnext <;> cases hnext <;> trivial
  | malformed =>
    simp only [sessionNext] at hnext
    split at hnext <;> cases hnext
    · trivial
    · exact h
  | stamp record => cases hnext; exact ⟨h, Nat.le_refl _⟩
  | valid record receivedAt =>
    simp only [sessionNext] at hnext
    split at hnext <;> cases hnext
    · trivial
    · exact ⟨h.2, ‹_›⟩
  | record q => exact recordNext_timely hnext h
  | _ =>
    simp only [sessionNext] at hnext
    (repeat' split at hnext) <;> cases hnext <;> trivial

/-- Outside of a session nothing is said about the deadline, and no step enters the loop. -/
theorem runNext_timely {p : RunPc D} (hrange : config.receiveTimeout * 1000 ≤ intMax)
    (hnext : runNext config w n c worker p = some r)
    (hok : ∀ q, p = .session q → Reliable w g c q)
    (h : Timely config w.clock w.impl.stopping g worker.deadline p) :
    Timely config w.clock w.impl.stopping (g.update w c p) r.worker.deadline r.worker.pc := by
  cases p with
  | session q => exact sessionNext_timely hrange hnext (hok q rfl) h
  | closeTransport context => cases hnext; cases context <;> trivial
  | raised message | finalFaulted =>
    cases hnext
    dsimp only
    split <;> trivial
  | _ =>
    simp only [runNext] at hnext
    (repeat' split at hnext) <;> cases hnext <;> trivial

end

/-! ## A shutdown means a stop -/

/-- From the connection of a session to the end of its receive loop. -/
def RunPc.connected : RunPc D → Bool
  | .session .command | .session .sendStart | .session .trackerReset | .session .firstDeadline
  | .session .loop | .session .now | .session .timedOut | .session (.receive _)
  | .session (.poll _) | .session .pollCheck | .session .recv | .session (.received _)
  | .session .malformed | .session (.stamp _) | .session (.valid ..) | .session (.record _) => true
  | _ => false

/-- The transport of a connected session is shut down only by a `stop`. -/
def ShutdownStops (w : World D) : Prop :=
  ∀ n, (w.workers n).pc.connected = true → w.impl.transport.shutdownRequested = true →
    w.impl.stopping = true

theorem running_of_connected {p : RunPc D} (h : p.connected = true) : p.running = true := by
  cases p <;> first | rfl | cases h

section
variable [DecidableEq D] [Double D]

theorem runNext_connected {p : RunPc D} (hnext : runNext config w n c worker p = some r)
    (hr : r.worker.pc.connected = true) :
    p.connected = true ∧ r.impl.transport = w.impl.transport ∨
      r.impl.transport.shutdownRequested = false := by
  cases p with
  | session q =>
    cases q with
    | record q => exact .inl ⟨rfl, recordNext_transport hnext⟩
    | connect =>
      simp only [runNext, sessionNext] at hnext
      split at hnext <;> cases hnext
      · exact .inr rfl
      · cases hr
    | connecting | apply => cases hnext; cases hr
    | discoverFailed => cases hnext; cases hr
    | socketFailed => cases hnext; cases hr
    | checkBeforeDiscovery | discover | checkBeforeConnect =>
      simp only [runNext, sessionNext] at hnext
      (repeat' split at hnext) <;> cases hnext <;> cases hr
    | _ =>
      simp only [runNext, sessionNext] at hnext
      (repeat' split at hnext) <;> cases hnext <;> exact .inl ⟨rfl, rfl⟩
  | closeTransport context => cases hnext; cases context <;> cases hr
  | raised message | finalFaulted =>
    cases hnext
    dsimp only at hr
    split at hr <;> cases hr
  | _ =>
    simp only [runNext] at hnext
    (repeat' split at hnext) <;> cases hnext <;> cases hr

theorem ShutdownStops.move (h : ShutdownStops w) (ho : Orderly w) (hf : StopFlag w)
    (hm : Moved config w w' l) : ShutdownStops w' := by
  intro k hk hshut
  cases hm with
  | tick | spurious | call => exact h k hk hshut
  | run n c r hnext htake =>
    rw [World.applyRun_impl, (runNext_control hnext).stopping]
    rw [World.applyRun_impl] at hshut
    rw [World.applyRun_workers] at hk
    by_cases hkn : k = n
    · subst hkn
      rw [Function.update_self] at hk
      rcases runNext_connected hnext hk with ⟨hp, hsame⟩ | hfalse
      · exact h k hp (hsame ▸ hshut)
      · simp [hfalse] at hshut
    · rw [Function.update_of_ne hkn] at hk
      exact absurd (ho.executing_unique (executing_of_next hnext) (running_of_connected hk)) hkn
  | api t c r hnext htake =>
    rcases ho.applyApi_worker config t r k with hsame | ⟨-, htop⟩
    · rw [hsame] at hk
      refine ho.apiNext_keeps_stopping hnext (running_of_connected hk) ?_
      rcases apiNext_transport hnext with ⟨htransport, -⟩ | ⟨hpc, -⟩
      · rw [World.applyApi_impl, htransport] at hshut
        exact h k hk hshut
      · exact hf t (by rw [hpc]; rfl)
    · rw [htop] at hk
      cases hk

theorem Reachable.shutdownStops (h : Reachable config w l) : ShutdownStops w :=
  h.induction (I := fun v _ => ShutdownStops v) (fun _ _ => (fun h => by cases h))
    fun hv hi hm => hi.move hv.orderly hv.stopFlag hm

end

/-! ## Malformed datagrams -/

/-- From the beginning of a session to the decision about its outcome. -/
def RunPc.inSession : RunPc D → Bool
  | .session _ | .close (.session _) | .closeTransport (.session _) | .decide _ => true
  | _ => false

/-- A datagram that is not a record and is not counted yet. -/
def RunPc.stray : RunPc D → Nat
  | .session .malformed => 1
  | .session (.received datagram) => if datagram = [] ∨ datagram.length = 36 then 0 else 1
  | _ => 0

/-- Every stray datagram of the session is counted. -/
def Counted (malformedCount : Nat) (g : Reception) (p : RunPc D) : Prop :=
  p.inSession = true → malformedCount + p.stray = g.malformedBefore + g.strays

theorem running_of_inSession {p : RunPc D} (h : p.inSession = true) : p.running = true := by
  cases p <;> first | rfl | cases h

theorem decodeRecord_none {data : List UInt8} (h : decodeRecord data = none) :
    data.length ≠ 36 := by
  unfold decodeRecord at h
  split at h
  · assumption
  · cases h

theorem decodeRecord_some {data : List UInt8} {record : RawRecord}
    (h : decodeRecord data = some record) : data.length = 36 := by
  unfold decodeRecord at h
  split at h
  · cases h
  · simp_all

theorem afterRecord_stray {i : Impl D} {outcome : Option SessionResult} {events : List (Event D)} :
    (afterRecord i worker n outcome events).worker.pc.stray = 0 := by
  cases outcome <;> rfl

theorem recordNext_stray [Double D] {p : RecordPc D}
    (hnext : recordNext config w n c worker p = some r) :
    r.impl.health.malformedCount = w.impl.health.malformedCount ∧ r.worker.pc.stray = 0 := by
  cases p with
  | account record receivedAt rdt ft =>
    simp only [recordNext] at hnext
    split at hnext
    · cases hnext; exact ⟨rfl, rfl⟩
    · obtain ⟨-, rfl, -⟩ := account_some ‹_›
      split at hnext <;> cases hnext
      · rw [afterRecord_impl]; exact ⟨rfl, afterRecord_stray⟩
      · exact ⟨rfl, rfl⟩
  | _ =>
    simp only [recordNext] at hnext
    (repeat' split at hnext) <;> cases hnext <;>
      first | exact ⟨rfl, rfl⟩ | (rw [afterRecord_impl]; exact ⟨rfl, afterRecord_stray⟩)

/-- The counters of failed sessions are not those of records. -/
theorem recordNext_failureCounts [Double D] {p : RecordPc D}
    (hnext : recordNext config w n c worker p = some r) :
    r.impl.health.timeoutCount = w.impl.health.timeoutCount ∧
      r.impl.health.reconnectCount = w.impl.health.reconnectCount := by
  cases p with
  | account record receivedAt rdt ft =>
    simp only [recordNext] at hnext
    split at hnext
    · cases hnext; exact ⟨rfl, rfl⟩
    · obtain ⟨-, rfl, -⟩ := account_some ‹_›
      split at hnext <;> cases hnext <;> first | exact ⟨rfl, rfl⟩ | (rw [afterRecord_impl]; exact ⟨rfl, rfl⟩)
  | _ =>
    simp only [recordNext] at hnext
    (repeat' split at hnext) <;> cases hnext <;>
      first | exact ⟨rfl, rfl⟩ | (rw [afterRecord_impl]; exact ⟨rfl, rfl⟩)

section
variable [DecidableEq D] [Double D]

theorem sessionNext_counted {p : SessionPc D} (hnext : sessionNext config w n c worker p = some r)
    (hstop : w.impl.stopping = false) (hempty : p = .recv → c ≠ .datagram [])
    (h : w.impl.health.malformedCount + (RunPc.session p).stray = g.malformedBefore + g.strays) :
    r.impl.health.malformedCount + r.worker.pc.stray =
      (g.update w c (.session p)).malformedBefore + (g.update w c (.session p)).strays := by
  cases p with
  | record q =>
    obtain ⟨hcount, hstray⟩ := recordNext_stray hnext
    rw [hcount, hstray]
    exact h
  | apply configuration =>
    cases hnext
    rw [(applyConfiguration_report configuration).1.malformedCount]
    exact h
  | recv =>
    simp only [sessionNext] at hnext
    split at hnext <;> cases hnext
    · rename_i bytes
      have hne : bytes ≠ [] := fun he => hempty rfl (by rw [he])
      simp only [Reception.update, RunPc.stray, hne, false_or] at h ⊢
      split
      · exact h
      · dsimp only; omega
    · exact h
    · exact h
  | received datagram =>
    simp only [sessionNext, hstop, Bool.false_eq_true, if_false] at hnext
    simp only [RunPc.stray] at h
    (repeat' split at hnext) <;> cases hnext
    · simp_all [RunPc.stray, Reception.update]
    · rename_i hne _ hdecode
      have hlen := decodeRecord_none hdecode
      simp_all [RunPc.stray, Reception.update]
    · rename_i hne _ _ hdecode
      have hlen := decodeRecord_some hdecode
      simp_all [RunPc.stray, Reception.update]
  | malformed =>
    simp only [sessionNext] at hnext
    split at hnext <;> cases hnext <;> exact h
  | pollCheck =>
    cases hnext
    dsimp only
    split <;> exact h
  | _ =>
    simp only [sessionNext] at hnext
    (repeat' split at hnext) <;> cases hnext <;> exact h

theorem runNext_counted {p : RunPc D} (hnext : runNext config w n c worker p = some r)
    (hstop : w.impl.stopping = false) (hempty : p = .session .recv → c ≠ .datagram [])
    (h : Counted w.impl.health.malformedCount g p) :
    Counted r.impl.health.malformedCount (g.update w c p) r.worker.pc := by
  intro hr
  cases p with
  | session q =>
    exact sessionNext_counted hnext hstop (fun hq => hempty (by rw [hq])) (h rfl)
  | top =>
    simp only [runNext] at hnext
    split at hnext <;> cases hnext
    · cases hr
    · rfl
  | close context =>
    cases context with
    | finish =>
      simp only [runNext] at hnext
      (repeat' split at hnext) <;> cases hnext <;> cases hr
    | session outcome =>
      simp only [runNext] at hnext
      (repeat' split at hnext) <;> cases hnext <;> exact h rfl
  | closeTransport context =>
    cases hnext
    cases context with
    | finish => cases hr
    | session outcome => exact h rfl
  | raised message | finalFaulted =>
    cases hnext
    dsimp only at hr
    split at hr <;> cases hr
  | _ =>
    simp only [runNext] at hnext
    (repeat' split at hnext) <;> cases hnext <;> cases hr

end

/-! ## Runs -/

/-- The facts about one worker that hold in every run. -/
structure Punctual (config : Config D) (w : World D) (g : Reception) (n : Nat) : Prop where
  timely : Timely config w.clock w.impl.stopping g (w.workers n).deadline (w.workers n).pc
  counted : w.impl.stopping = false → Counted w.impl.health.malformedCount g (w.workers n).pc

/-- The steps the timeout is sound for. -/
def Regular (s : World D × (Nat → Reception)) (a : Action D) : Prop :=
  Undisturbed s a ∧ NoEmptyDatagram s a

theorem Regular.reliable {s : World D × (Nat → Reception)} (h : Regular s (.run n c))
    (hs : ShutdownStops s.1) {q : SessionPc D} (hq : (s.1.workers n).pc = .session q) :
    Reliable s.1 (s.2 n) c q := by
  obtain ⟨hund, hempty⟩ := h
  simp only [Undisturbed, hq] at hund
  constructor
  · rintro d rfl rfl
    exact hund
  · rintro d rfl rfl
    exact hund
  · rintro rfl
    refine ⟨?_, ?_⟩
    · rintro rfl
      exact hund
    · rintro rfl
      exact hempty hq rfl
  · intro hpos
    refine hs n ?_
    rw [hq]
    rcases hpos with rfl | ⟨remaining, rfl⟩ <;> rfl

theorem Punctual.idle (hn : ¬ w.executing n) : Punctual config w g n where
  timely := by
    cases hp : (w.workers n).pc with
    | session q => exact absurd (by rw [World.executing, hp]; rfl) hn
    | _ => trivial
  counted := fun _ hin => absurd (running_of_inSession hin) hn

theorem Punctual.other (h : Punctual config w g n) (hworker : w'.workers n = w.workers n)
    (hclock : w.clock ≤ w'.clock)
    (hstop : w.impl.stopping = true → w'.impl.stopping = true)
    (hcount : w'.impl.health.malformedCount = w.impl.health.malformedCount) :
    Punctual config w' g n where
  timely := by rw [hworker]; exact h.timely.later hclock hstop
  counted := fun hs => by
    rw [hworker, hcount]
    refine h.counted ?_
    cases hstop' : w.impl.stopping with
    | false => rfl
    | true => simp [hstop hstop'] at hs

section
variable [DecidableEq D] [Double D]

/-- The client, with the ghost of what its workers receive. -/
def receptionMachine (config : Config D) :
    Machine (World D × (Nat → Reception)) (Action D) (Event D) :=
  (machine config).withGhost updateReceptions

theorem punctual_of_run {s : World D × (Nat → Reception)}
    (hrange : config.receiveTimeout * 1000 ≤ intMax)
    (h : (receptionMachine config).RunIf Regular (World.initial clock, fun _ => {}) l s) :
    Reachable config s.1 l ∧ ∀ n, Punctual config s.1 (s.2 n) n := by
  have hreach : ∀ {v k}, (receptionMachine config).Run (World.initial clock, fun _ => {}) k v →
      Reachable config v.1 k := fun hv => ⟨clock, hv.eraseGhost⟩
  refine ⟨hreach h.run, h.invariant (I := fun v _ => ∀ n, Punctual config v.1 (v.2 n) n) ?_ ?_⟩
  · exact fun n => ⟨trivial, fun _ => fun h => by cases h⟩
  · rintro ⟨v, g⟩ k a ⟨v', g'⟩ k' hv hi hok hstep n
    obtain ⟨hbase, rfl⟩ := Machine.withGhost_step.mp hstep
    have hbase : step config v a = some (v', k') := hbase
    have hr := hreach hv
    have ho := hr.orderly
    cases a with
    | run m c =>
      obtain ⟨r, hnext, -, rfl, -⟩ := step_run hbase
      by_cases hn : n = m
      · subst hn
        have hi := hi n
        simp only [updateReceptions, Function.update_self]
        have hcontrol := (runNext_control hnext).stopping
        constructor
        · rw [World.applyRun_workers, Function.update_self, World.applyRun_clock,
            World.applyRun_impl, hcontrol]
          exact runNext_timely hrange hnext
            (fun q hq => hok.reliable hr.shutdownStops hq) hi.timely
        · intro hs
          rw [World.applyRun_impl] at hs ⊢
          rw [World.applyRun_workers, Function.update_self]
          have hs : v.impl.stopping = false := hcontrol ▸ hs
          refine runNext_counted hnext hs (fun hq => ?_) (hi.counted hs)
          exact ((hok.reliable hr.shutdownStops hq).recv rfl).2
      · refine .idle fun hrun => hn (ho.executing_unique (executing_of_next hnext) ?_)
        rwa [World.executing, World.applyRun_workers, Function.update_of_ne hn] at hrun
    | api t c =>
      obtain ⟨r, hnext, -, rfl, -⟩ := step_api hbase
      have hcount : r.impl.health.malformedCount = v.impl.health.malformedCount := by
        have hlife := (apiNext_lifetime hnext (hr.savedLifetime t)).1
        exact congrArg (fun h => h.malformedCount) hlife
      rcases ho.applyApi_worker config t r n with hworker | ⟨-, htop⟩
      · by_cases hrun : v.executing n
        · exact (hi n).other hworker (Nat.le_refl _) (ho.apiNext_keeps_stopping hnext hrun) hcount
        · exact .idle (by rwa [World.executing, hworker])
      · constructor
        · rw [htop]; trivial
        · rw [htop]; exact fun _ => fun h => by cases h
    | call t call =>
      simp only [step] at hbase
      (repeat' split at hbase) <;> cases hbase
      exact (hi n).other rfl (Nat.le_refl _) id rfl
    | tick ticks => cases hbase; exact (hi n).other rfl (Nat.le_add_right ..) id rfl
    | spurious t => cases hbase; exact (hi n).other rfl (Nat.le_refl _) id rfl

/-- Only the end of a session as timed out counts a timeout. -/
theorem runNext_timeoutCount {p : RunPc D} (hnext : runNext config w n c worker p = some r) :
    r.impl.health.timeoutCount = w.impl.health.timeoutCount ∨
      p = .session .timedOut ∧ w.impl.stopping = false ∧
        r = endSession w.impl.countTimeout worker n .timeout "" := by
  cases p with
  | session q =>
    cases q with
    | record q => exact .inl (recordNext_failureCounts hnext).1
    | apply configuration =>
      cases hnext
      exact .inl (applyConfiguration_report configuration).1.timeoutCount
    | timedOut =>
      simp only [runNext, sessionNext] at hnext
      split at hnext <;> cases hnext
      · exact .inl rfl
      · exact .inr ⟨rfl, eq_false_of_ne_true ‹_›, rfl⟩
    | _ =>
      simp only [runNext, sessionNext] at hnext
      (repeat' split at hnext) <;> cases hnext <;> exact .inl rfl
  | publish code message =>
    cases hnext
    refine .inl ?_
    simp only [Impl.publish]
    split <;> rfl
  | _ =>
    simp only [runNext] at hnext
    (repeat' split at hnext) <;> cases hnext <;> exact .inl rfl

/-- A stray datagram is counted, or the session that has received it goes on as it was. -/
theorem runNext_stray {p : RunPc D} (hnext : runNext config w n c worker p = some r)
    (hp : p.stray = 1) (hstop : w.impl.stopping = false) :
    r.worker.deadline = worker.deadline ∧
      (r.worker.pc = .session .malformed ∧ r.events = [] ∨
        r.impl.health.malformedCount = w.impl.health.malformedCount + 1 ∧
          (r.worker.pc = .session .loop ∧ r.events = [] ∨
            ∃ outcome, outcome.result = .malformedStorm ∧ r.events = [.sessionEnded n outcome])) := by
  cases p with
  | session q =>
    cases q with
    | received datagram =>
      simp only [RunPc.stray] at hp
      simp only [runNext, sessionNext, hstop, Bool.false_eq_true, if_false] at hnext
      (repeat' split at hnext) <;> cases hnext
      · simp_all
      · exact ⟨rfl, .inl ⟨rfl, rfl⟩⟩
      · have hlen := decodeRecord_some ‹_›
        simp_all
    | malformed =>
      simp only [runNext, sessionNext] at hnext
      split at hnext <;> cases hnext
      · exact ⟨rfl, .inr ⟨rfl, .inr ⟨_, rfl, rfl⟩⟩⟩
      · exact ⟨rfl, .inr ⟨rfl, .inl ⟨rfl, rfl⟩⟩⟩
    | _ => simp [RunPc.stray] at hp
  | _ => simp [RunPc.stray] at hp

/-- In every run in which `poll` and `recv` behave and no empty datagram is received: the
deadline of a session is `receive_timeout` after the later of the start of receiving and the last
valid record; the session ends as timed out, and `timeout_count` grows, only when that time has
passed; and every datagram that is not 36 bytes long is counted as malformed, does not end the
session as timed out and does not move the deadline, unless a stop is requested. -/
theorem session_timeout_sound {g : Nat → Reception}
    (hrange : config.receiveTimeout * 1000 ≤ intMax)
    (h : (receptionMachine config).RunIf Regular (World.initial clock, fun _ => {}) l (w, g)) :
    (∀ n, (w.workers n).pc.receiving = true →
      ∃ ticks, checkedDuration config.receiveTimeout = some ticks ∧
        (w.workers n).deadline = (g n).since + ticks) ∧
    (∀ n, (w.workers n).pc.inSession = true → w.impl.stopping = false →
      w.impl.health.malformedCount + (w.workers n).pc.stray =
        (g n).malformedBefore + (g n).strays) ∧
    ∀ a w' l', step config w a = some (w', l') →
      (∀ n outcome, .sessionEnded n outcome ∈ l' → outcome.result = .timeout →
        w'.impl.health.timeoutCount = w.impl.health.timeoutCount + 1 ∧
        ∃ ticks, checkedDuration config.receiveTimeout = some ticks ∧
          (g n).since + ticks ≤ w.clock) ∧
      (w'.impl.health.timeoutCount ≠ w.impl.health.timeoutCount →
        ∃ n outcome, .sessionEnded n outcome ∈ l' ∧ outcome.result = .timeout) ∧
      (∀ n c, a = .run n c → (w.workers n).pc.stray = 1 → w.impl.stopping = false →
        (w'.workers n).deadline = (w.workers n).deadline ∧
        ((w'.workers n).pc = .session .malformed ∧ l' = [] ∨
          w'.impl.health.malformedCount = w.impl.health.malformedCount + 1 ∧
            ((w'.workers n).pc = .session .loop ∧ l' = [] ∨
              ∃ outcome, outcome.result = .malformedStorm ∧ l' = [.sessionEnded n outcome]))) := by
  obtain ⟨hreach, hpunctual⟩ := punctual_of_run hrange h
  refine ⟨fun n hn => ((hpunctual n).timely.origin hn).ticks,
    fun n hn hstop => (hpunctual n).counted hstop hn, fun a w' l' hstep => ⟨?_, ?_, ?_⟩⟩
  · intro n outcome he hresult
    obtain ⟨m, c, rfl⟩ := run_of_event hstep he rfl rfl
    obtain ⟨r, hnext, -, rfl, rfl⟩ := step_run hstep
    obtain ⟨rfl, -, hends⟩ := runNext_ended hnext (hreach.recordOutcomes m) he
    obtain ⟨hpc, hstop⟩ := (hresult ▸ hends).timedOut
    have htimely := (hpunctual n).timely
    rw [hpc] at hnext htimely
    simp only [runNext, sessionNext, hstop, Bool.false_eq_true, if_false] at hnext
    cases hnext
    obtain ⟨ticks, hticks, hdeadline⟩ := htimely.1.ticks
    exact ⟨rfl, ticks, hticks, hdeadline ▸ htimely.2⟩
  · intro hchanged
    obtain ⟨n, c, rfl⟩ := lifetime_step hreach hstep fun hsame =>
      hchanged (congrArg (fun h => h.timeoutCount) hsame)
    obtain ⟨r, hnext, -, rfl, rfl⟩ := step_run hstep
    rcases runNext_timeoutCount hnext with hsame | ⟨-, -, rfl⟩
    · exact absurd hsame hchanged
    · exact ⟨n, _, List.mem_singleton_self _, rfl⟩
  · rintro n c rfl hstray hstop
    obtain ⟨r, hnext, -, rfl, rfl⟩ := step_run hstep
    rw [World.applyRun_workers, Function.update_self]
    exact runNext_stray hnext hstray hstop

end

/-! ### Two runs -/

/-- A test for `Undisturbed` that looks only at the answers of the operating system. -/
def calm (s : World Rat × (Nat → Reception)) : Action Rat → Bool
  | .run n .expires => (s.2 n).pollEnd ≤ s.1.clock
  | .run _ .interrupted | .run _ (.fails _) => false
  | _ => true

theorem undisturbed_of_calm {s : World Rat × (Nat → Reception)} {a : Action Rat}
    (h : calm s a = true) : Undisturbed s a := by
  cases a with
  | run n c =>
    simp only [Undisturbed]
    split <;> simp_all [calm]
  | _ => trivial

/-- A session receives a datagram without content. -/
def emptyDatagram : (World Rat × (Nat → Reception)) × List (Event Rat) :=
  (receptionMachine (demoConfig .failStop)).perform (World.initial 1, fun _ => {})
    (startActions (.client 0) ++ openActions 0 ++ List.replicate 3 (.run 0 .go) ++
      [.run 0 .succeeds, .run 0 .go, .run 0 (.datagram []), .run 0 .go])

def endedByEmptyDatagram : World Rat × List (Event Rat) :=
  (machine (demoConfig .failStop)).perform emptyDatagram.1.1 [.run 0 .go]

theorem timeout_on_empty_datagram :
    (receptionMachine (demoConfig .failStop)).RunIf Undisturbed (World.initial 1, fun _ => {})
        emptyDatagram.2 emptyDatagram.1 ∧
      step (demoConfig .failStop) emptyDatagram.1.1 (.run 0 .go) = some endedByEmptyDatagram ∧
      .sessionEnded 0 ⟨.timeout, "", false⟩ ∈ endedByEmptyDatagram.2 ∧
      checkedDuration (demoConfig .failStop).receiveTimeout = some 1000000000 ∧
      emptyDatagram.1.1.clock < (emptyDatagram.1.2 0).since + 1000000000 ∧
      (emptyDatagram.1.2 0).strays = 1 ∧
      endedByEmptyDatagram.1.impl.health.malformedCount = 0 := by
  refine ⟨Machine.runIf_perform calm (by decide +kernel) fun _ _ => undisturbed_of_calm,
    step_perform (by decide +kernel), ?_⟩
  decide +kernel

/-- Worker `n` receives a datagram and looks at it. -/
def datagramActions (n : Nat) (datagram : List UInt8) : List (Action Rat) :=
  List.replicate 3 (.run n .go) ++
    [.run n .succeeds, .run n .go, .run n (.datagram datagram), .run n .go, .run n .go]

/-- A session that receives a record before its deadline, a malformed datagram before the new one,
and then nothing. -/
def silentSession : (World Rat × (Nat → Reception)) × List (Event Rat) :=
  (receptionMachine (demoConfig .failStop)).perform (World.initial 1, fun _ => {})
    (startActions (.client 0) ++ openActions 0 ++ .tick 700000000 ::
      receiveActions 0 (plainRecord 1 1) ++ .tick 700000000 :: datagramActions 0 [1, 2] ++
      List.replicate 3 (.run 0 .go) ++ [.tick 300000000, .run 0 .expires, .run 0 .go])

def endedByTimeout : World Rat × List (Event Rat) :=
  (machine (demoConfig .failStop)).perform silentSession.1.1 [.run 0 .go]

/-- The step does not receive an empty datagram. -/
def Action.receivesBytes : Action D → Bool
  | .run _ (.datagram bytes) => bytes ≠ []
  | _ => true

theorem session_timeout_sound_silentSession :
    (silentSession.1.2 0).since = 700000001 ∧ (silentSession.1.2 0).strays = 1 ∧
      silentSession.1.1.impl.health.malformedCount = 1 ∧
      .sessionEnded 0 ⟨.timeout, "", true⟩ ∈ endedByTimeout.2 ∧
      endedByTimeout.1.impl.health.timeoutCount = silentSession.1.1.impl.health.timeoutCount + 1 ∧
      ∃ ticks, checkedDuration (demoConfig .failStop).receiveTimeout = some ticks ∧
        (silentSession.1.2 0).since + ticks ≤ silentSession.1.1.clock := by
  have hrun : (receptionMachine (demoConfig .failStop)).RunIf Regular (World.initial 1, fun _ => {})
      silentSession.2 (silentSession.1.1, silentSession.1.2) :=
    Machine.runIf_perform (fun s a => calm s a && a.receivesBytes) (by decide +kernel)
      fun s a ha => by
        simp only [Bool.and_eq_true] at ha
        refine ⟨undisturbed_of_calm ha.1, ?_⟩
        cases a with
        | run n c =>
          cases c with
          | datagram bytes => exact fun _ => by simpa [Action.receivesBytes] using ha.2
          | _ => trivial
        | _ => trivial
  have hstep : step (demoConfig .failStop) silentSession.1.1 (.run 0 .go) = some endedByTimeout :=
    step_perform (by decide +kernel)
  have hevent : .sessionEnded 0 ⟨.timeout, "", true⟩ ∈ endedByTimeout.2 := by decide +kernel
  obtain ⟨-, hcounts, hsound⟩ := session_timeout_sound (by decide +kernel) hrun
  have hmalformed := hcounts 0 (by decide +kernel) (by decide +kernel)
  have hbefore : (silentSession.1.2 0).malformedBefore = 0 := by decide +kernel
  have hstrays : (silentSession.1.2 0).strays = 1 := by decide +kernel
  have hstray : (silentSession.1.1.workers 0).pc.stray = 0 := by decide +kernel
  refine ⟨by decide +kernel, hstrays, ?_, hevent, (hsound _ _ _ hstep).1 0 _ hevent rfl⟩
  rwa [hbefore, hstrays, hstray] at hmalformed

end NetFT.Client
