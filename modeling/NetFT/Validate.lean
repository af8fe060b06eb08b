import NetFT.Discovery
import NetFT.Client.Impl

/-! Validation of a calibration and of the settings a client is constructed with (`types.cpp`). The
error is the message of the `invalid_argument`. Durations are exact, so that the tests for their
finiteness are vacuous. -/

namespace NetFT
open Client (checkedDuration checkedDeadline)

/-- The comparisons that validation makes with a `double`. -/
class CountOrder (D : Type) where
  /-- `value <= 0.0` -/
  nonpositive : D → Bool
  /-- `value < minimum`, the least divisor that keeps every raw count finite. -/
  belowMinimum : D → Bool

instance : CountOrder Rat where
  nonpositive value := value ≤ 0
  belowMinimum value := value < 2 ^ 31 / ((2 ^ 53 - 1) * 2 ^ 971) * (1 + 1 / 2 ^ 52)

/-- `if (bad) throw`. -/
def throwIf (bad : Prop) [Decidable bad] (message : String) : Except String Unit :=
  if bad then .error message else .ok ()

section
variable {D : Type} [Double D] [CountOrder D]

def requireSafeCount (name : String) (value : D) : Except String Unit := do
  throwIf (!Double.isfinite value || CountOrder.nonpositive value)
    (name ++ " must be finite and positive")
  throwIf (CountOrder.belowMinimum value) (name ++ " cannot represent the full raw count range")

def Calibration.validate (calibration : Calibration D) : Except String Unit := do
  requireSafeCount "counts_per_force_unit" calibration.countsPerForceUnit
  requireSafeCount "counts_per_torque_unit" calibration.countsPerTorqueUnit
  throwIf (calibration.forceUnit = .unknown ∨ calibration.torqueUnit = .unknown)
    "calibration units must be known"

end

def requireSafeTimeout (now : TimePoint) (name : String) (value : Rat) (http : Bool := false) :
    Except String Unit := do
  throwIf (value ≤ 0) (name ++ " must be finite and positive")
  throwIf (checkedDuration value = none) "duration is outside the supported steady-clock range"
  throwIf (checkedDuration value = some 0) (name ++ " is below the steady-clock resolution")
  throwIf (checkedDeadline now value = none) "deadline is outside the supported steady-clock range"
  throwIf (http ∧ (value * 1000).ceil ≥ Discovery.longMax)
    (name ++ " is outside the HTTP timer range")

def requirePort (name : String) (value : Int) : Except String Unit :=
  throwIf (value < 1 ∨ value > 65535) (name ++ " must be in the range 1..65535")

/-- A configuration with the fields that only parametrise the environment. -/
structure Settings (D : Type) extends Config D where
  sensorHost : List UInt8
  rdtPort : Int
  httpPort : Int
  configurationConnectTimeout : Rat
  configurationTimeout : Rat

/-- `validate`, with the readings of the steady clock that it makes. -/
def Settings.validate {D : Type} [Double D] [CountOrder D] (now : Nat → TimePoint)
    (settings : Settings D) : Except String Unit := do
  throwIf (settings.sensorHost.all Discovery.isBlank) "sensor_host must not be blank"
  requirePort "rdt_port" settings.rdtPort
  requirePort "http_port" settings.httpPort
  requireSafeTimeout (now 0) "receive_timeout" settings.receiveTimeout
  requireSafeTimeout (now 1) "configuration_connect_timeout"
    settings.configurationConnectTimeout true
  requireSafeTimeout (now 2) "configuration_timeout" settings.configurationTimeout true
  requireSafeTimeout (now 3) "reconnect_initial_delay" settings.reconnectInitialDelay
  requireSafeTimeout (now 4) "reconnect_max_delay" settings.reconnectMaxDelay
  throwIf (settings.reconnectMaxDelay < settings.reconnectInitialDelay)
    "reconnect_max_delay must not be below reconnect_initial_delay"
  throwIf (settings.sampleRateLimitHz < 0) "sample_rate_limit_hz must be finite and non-negative"
  match settings.calibrationOverride with
  | some calibration => calibration.validate
  | none => .ok ()

/-! ## What is accepted -/

@[simp] theorem throwIf_eq_ok {bad : Prop} [Decidable bad] {message : String} {u : Unit} :
    throwIf bad message = .ok u ↔ ¬ bad := by
  unfold throwIf
  split <;> simp_all

@[simp] theorem bind_eq_ok {ε α β : Type} {x : Except ε α} {f : α → Except ε β} {b : β} :
    (x >>= f) = .ok b ↔ ∃ a, x = .ok a ∧ f a = .ok b := by
  cases x <;> simp [bind, Except.bind]

/-- The calibrations that are accepted. -/
theorem Calibration.validate_eq_ok {D : Type} [Double D] [CountOrder D]
    {calibration : Calibration D} :
    calibration.validate = .ok () ↔
      (∀ value ∈ [calibration.countsPerForceUnit, calibration.countsPerTorqueUnit],
        Double.isfinite value = true ∧ CountOrder.nonpositive value = false ∧
          CountOrder.belowMinimum value = false) ∧
      calibration.forceUnit ≠ .unknown ∧ calibration.torqueUnit ≠ .unknown := by
  simp [Calibration.validate, requireSafeCount, and_assoc]

/-- The delays of accepted settings. -/
theorem Settings.validate_delays {D : Type} [Double D] [CountOrder D] {now : Nat → TimePoint}
    {settings : Settings D} (h : settings.validate now = .ok ()) :
    0 < settings.reconnectInitialDelay ∧
      settings.reconnectInitialDelay ≤ settings.reconnectMaxDelay := by
  simp only [validate, requireSafeTimeout, bind_eq_ok, exists_const, throwIf_eq_ok] at h
  obtain ⟨-, -, -, -, -, -, -, -, hinitial, -, hle, -⟩ := h
  exact ⟨Rat.not_le.mp hinitial.1, Rat.not_lt.mp hle⟩

theorem Settings.validate_override {D : Type} [Double D] [CountOrder D] {now : Nat → TimePoint}
    {settings : Settings D} (h : settings.validate now = .ok ()) {calibration : Calibration D}
    (hoverride : settings.calibrationOverride = some calibration) :
    calibration.validate = .ok () := by
  simp only [validate, requireSafeTimeout, bind_eq_ok, exists_const, throwIf_eq_ok, hoverride] at h
  obtain ⟨-, -, -, -, -, -, -, -, -, -, -, -, hvalid⟩ := h
  exact hvalid

end NetFT
